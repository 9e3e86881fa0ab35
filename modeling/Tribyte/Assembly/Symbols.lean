import Tribyte.Source.Error

/-! Symbol tables. A label is defined once; the table remembers where. -/
namespace Tribyte

structure Symbol where
  address : Nat
  line : Nat
  deriving DecidableEq, Repr

/-- Names and their symbols. No two entries have the same name, and their order means nothing. -/
structure SymbolTable where
  entries : List (String × Symbol)
  distinct : (entries.map Prod.fst).Nodup

namespace SymbolTable

def empty : SymbolTable := ⟨[], .nil⟩

def symbol? (t : SymbolTable) (name : String) : Option Symbol := t.entries.lookup name

@[simp] theorem symbol?_empty (name : String) : empty.symbol? name = none := rfl

theorem symbol?_eq_none_iff {t : SymbolTable} {name : String} :
    t.symbol? name = none ↔ name ∉ t.entries.map Prod.fst := by
  rw [symbol?, List.lookup_eq_none_iff, List.mem_map]
  constructor
  · rintro h ⟨e, he, rfl⟩
    exact absurd (h e he) (by simp)
  · intro h e he
    exact bne_iff_ne.mpr fun hname => h ⟨e, he, hname.symm⟩

/-- The table with an entry for a name that has none. -/
def insert (t : SymbolTable) (name : String) (symbol : Symbol) (h : t.symbol? name = none) : SymbolTable where
  entries := (name, symbol) :: t.entries
  distinct := List.nodup_cons.mpr ⟨symbol?_eq_none_iff.mp h, t.distinct⟩

/-- Define a name. The table is returned as it is left, also where the name is taken. -/
def define (t : SymbolTable) (name : String) (address line : Nat) : Except SourceError Unit × SymbolTable :=
  match h : t.symbol? name with
  | some earlier => (.error (.duplicateLabel line name earlier.line), t)
  | none => (.ok (), t.insert name ⟨address, line⟩ h)

theorem define_of_none {t : SymbolTable} {name : String} (h : t.symbol? name = none) (address line : Nat) :
    t.define name address line = (.ok (), t.insert name ⟨address, line⟩ h) := by
  unfold define
  split
  · rename_i hsome
    cases h.symm.trans hsome
  · rfl

theorem define_of_some {t : SymbolTable} {name : String} {earlier : Symbol} (h : t.symbol? name = some earlier)
    (address line : Nat) : t.define name address line = (.error (.duplicateLabel line name earlier.line), t) := by
  unfold define
  split
  · rename_i hsome
    cases h.symm.trans hsome
    rfl
  · rename_i hnone
    cases h.symm.trans hnone

theorem symbol?_insert (t : SymbolTable) {name : String} (symbol : Symbol) (h : t.symbol? name = none) (other : String) :
    (t.insert name symbol h).symbol? other = if name = other then some symbol else t.symbol? other := by
  by_cases hname : name = other
  · simp [symbol?, insert, hname]
  · have hother : (other == name) = false := beq_false_of_ne (Ne.symm hname)
    simp only [symbol?, insert, List.lookup_cons, hother, if_neg hname]

def address? (t : SymbolTable) (name : String) : Option Nat := (t.symbol? name).map Symbol.address

def size (t : SymbolTable) : Nat := t.entries.length

def isEmpty (t : SymbolTable) : Bool := t.entries.isEmpty

/-- Whether one entry of a listing may stand before another: by address, then by name. -/
def precedes (e f : String × Nat) : Bool := e.2 < f.2 || (e.2 == f.2 && e.1 ≤ f.1)

/-- The listing of entries, whatever their order: names and addresses, by address and then by name. -/
def listing (entries : List (String × Symbol)) : List (String × Nat) :=
  (entries.map fun (name, symbol) => (name, symbol.address)).mergeSort precedes

def sorted (t : SymbolTable) : List (String × Nat) := listing t.entries

end SymbolTable

end Tribyte
