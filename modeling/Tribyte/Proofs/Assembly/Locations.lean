import Tribyte.Assembly.Layout
import Tribyte.Proofs.Source.WellFormed

/-! Locations and symbols.

In a layout every statement stands where the one before it ends, the location counter is where the last one
ends, and a symbol's address is the location of the one statement that carries it as a label
(`Layout.Sound`). One line keeps that (`sound_extend`), so every layout has it (`sound_ofLines`). -/
namespace Tribyte

/-! ### Symbols -/

namespace SymbolTable

theorem define_eq_ok {t u : SymbolTable} {name : String} {address line : Nat}
    (h : t.define name address line = (.ok (), u)) :
    t.symbol? name = none ∧ ∀ other, u.symbol? other = if name = other then some ⟨address, line⟩ else t.symbol? other := by
  cases hentry : t.symbol? name with
  | none =>
    rw [define_of_none hentry] at h
    cases h
    exact ⟨rfl, t.symbol?_insert _ hentry⟩
  | some earlier =>
    rw [define_of_some hentry] at h
    cases h

theorem exists_define_iff {t : SymbolTable} {name : String} {address line : Nat} :
    (∃ u, t.define name address line = (.ok (), u)) ↔ t.symbol? name = none :=
  ⟨fun ⟨_, h⟩ => (define_eq_ok h).1, fun h => ⟨_, define_of_none h address line⟩⟩

theorem address?_eq_none_iff {t : SymbolTable} {name : String} : t.address? name = none ↔ t.symbol? name = none :=
  Option.map_eq_none_iff

theorem address?_define {t u : SymbolTable} {name : String} {address line : Nat}
    (h : t.define name address line = (.ok (), u)) (other : String) :
    u.address? other = if name = other then some address else t.address? other := by
  rw [address?, (define_eq_ok h).2, address?]
  split <;> rfl

end SymbolTable

/-! ### Statements one after another -/

/-- The address that START gives; any other statement leaves `address`. -/
def Statement.startOr (s : Statement) (address : Nat) : Nat :=
  match s.payload with
  | .start _ here => here
  | _ => address

/-- Where the statement after `s` stands. -/
def Statement.following (s : Statement) : Nat := s.startOr (s.location + s.size)

theorem Statement.startOr_of_payload {s : Statement} (h : ∀ name here, s.payload ≠ .start name here) (address : Nat) :
    s.startOr address = address := by
  unfold startOr
  split
  · exact absurd ‹_› (h _ _)
  · rfl

theorem Statement.startOr_of_operation {s : Statement} (hs : s.WellFormed) (h : s.operation ≠ .directive .start)
    (address : Nat) : s.startOr address = address := by
  refine startOr_of_payload ?_ address
  intro name here hpayload
  have hsuits := hs.suits
  rw [hpayload] at hsuits
  exact h hsuits.of_start.1

/-- Statements that follow one another from `first` on; the next one would stand at `stop`. -/
def Consecutive : (first : Nat) → List Statement → (stop : Nat) → Prop
  | first, [], stop => first = stop
  | first, s :: rest, stop => s.location = first ∧ Consecutive s.following rest stop

theorem consecutive_nil (address : Nat) : Consecutive address [] address := rfl

theorem consecutive_singleton (s : Statement) : Consecutive s.location [s] s.following := ⟨rfl, rfl⟩

theorem consecutive_append {first stop : Nat} {ss ts : List Statement} :
    Consecutive first (ss ++ ts) stop ↔ ∃ middle, Consecutive first ss middle ∧ Consecutive middle ts stop := by
  induction ss generalizing first with
  | nil =>
    constructor
    · intro h
      exact ⟨first, rfl, h⟩
    · intro h
      obtain ⟨middle, rfl, h⟩ := h
      exact h
  | cons s rest ih =>
    constructor
    · intro h
      obtain ⟨hs, h⟩ := h
      obtain ⟨middle, hrest, hts⟩ := ih.mp h
      exact ⟨middle, ⟨hs, hrest⟩, hts⟩
    · intro h
      obtain ⟨middle, ⟨hs, hrest⟩, hts⟩ := h
      exact ⟨hs, ih.mpr ⟨middle, hrest, hts⟩⟩

theorem Consecutive.exists_last {first stop : Nat} {ss : List Statement} (h : Consecutive first ss stop) (hne : ss ≠ []) :
    ∃ s ∈ ss, s.following = stop := by
  induction ss generalizing first with
  | nil => exact absurd rfl hne
  | cons s rest ih =>
    by_cases hrest : rest = []
    · subst hrest
      exact ⟨s, List.mem_singleton_self s, h.2⟩
    · obtain ⟨t, ht, hstop⟩ := ih h.2 hrest
      exact ⟨t, List.mem_cons_of_mem s ht, hstop⟩

section Sized

variable {first stop : Nat} {ss : List Statement} (hsized : ∀ s ∈ ss, s.following = s.location + s.size)
include hsized

theorem Consecutive.le (h : Consecutive first ss stop) : first ≤ stop := by
  induction ss generalizing first with
  | nil => exact Nat.le_of_eq h
  | cons s rest ih =>
    obtain ⟨rfl, hrest⟩ := h
    have := ih (fun t ht => hsized t (List.mem_cons_of_mem s ht)) hrest
    rw [hsized s (List.mem_cons_self ..)] at this
    omega

/-- Each statement lies between the two ends. -/
theorem Consecutive.mem_range (h : Consecutive first ss stop) {s : Statement} (hs : s ∈ ss) :
    first ≤ s.location ∧ s.location + s.size ≤ stop := by
  induction ss generalizing first with
  | nil => cases hs
  | cons t rest ih =>
    obtain ⟨rfl, hrest⟩ := h
    have hsized' : ∀ u ∈ rest, u.following = u.location + u.size :=
      fun u hu => hsized u (List.mem_cons_of_mem t hu)
    have ht := hsized t (List.mem_cons_self ..)
    rcases List.mem_cons.mp hs with rfl | hs
    · have := hrest.le hsized'
      omega
    · have := ih hsized' hrest hs
      omega

/-- Each statement ends before the later ones begin. -/
theorem Consecutive.pairwise (h : Consecutive first ss stop) :
    ss.Pairwise fun s t => s.location + s.size ≤ t.location := by
  induction ss generalizing first with
  | nil => exact .nil
  | cons s rest ih =>
    have hsized' : ∀ t ∈ rest, t.following = t.location + t.size :=
      fun t ht => hsized t (List.mem_cons_of_mem s ht)
    refine List.pairwise_cons.mpr ⟨?_, ih hsized' h.2⟩
    intro t ht
    rw [← hsized s (List.mem_cons_self ..)]
    exact (h.2.mem_range hsized' ht).1

/-- Two statements do not overlap. -/
theorem Consecutive.apart (h : Consecutive first ss stop) {s t : Statement} (hs : s ∈ ss) (ht : t ∈ ss) :
    s = t ∨ s.location + s.size ≤ t.location ∨ t.location + t.size ≤ s.location := by
  have hpairwise := h.pairwise hsized
  clear h hsized
  induction ss with
  | nil => cases hs
  | cons u rest ih =>
    obtain ⟨hu, hrest⟩ := List.pairwise_cons.mp hpairwise
    rcases List.mem_cons.mp hs with hsu | hs <;> rcases List.mem_cons.mp ht with htu | ht
    · exact .inl (hsu.trans htu.symm)
    · exact .inr (.inl (hsu ▸ hu t ht))
    · exact .inr (.inr (htu ▸ hu s hs))
    · exact ih hs ht hrest

end Sized

/-! ### Layouts -/

/-- The address that the last START gives. -/
def startAddress (ss : List Statement) : Nat := ss.foldl (fun address s => s.startOr address) 0

theorem foldl_startOr {ss : List Statement} (h : ∀ s ∈ ss, ∀ address, s.startOr address = address) (address : Nat) :
    ss.foldl (fun a s => s.startOr a) address = address := by
  induction ss with
  | nil => rfl
  | cons s rest ih =>
    rw [List.foldl_cons, h s (List.mem_cons_self ..)]
    exact ih fun t ht => h t (List.mem_cons_of_mem s ht)

namespace Layout

structure Sound (l : Layout) : Prop where
  wellFormed : ∀ s ∈ l.statements.toList, s.WellFormed
  consecutive : Consecutive 0 l.statements.toList l.counter
  bounded : l.counter ≤ Word.greatest
  located : ∀ s ∈ l.statements.toList, s.location ≤ Word.greatest
  start : l.start = startAddress l.statements.toList
  symbols : ∀ name address, l.symbols.address? name = some address ↔
    ∃ s ∈ l.statements.toList, s.label = some name ∧ s.location = address

theorem sound_empty : Sound {} where
  wellFormed := by simp
  consecutive := rfl
  bounded := Nat.zero_le _
  located := by simp
  start := rfl
  symbols := by simp [SymbolTable.address?]

theorem advance_eq_ok {l : Layout} {s : Statement} {start counter : Nat} (hlocation : s.location = l.counter)
    (hs : s.WellFormed) (h : l.advance s = .ok (start, counter)) :
    counter = s.following ∧ counter ≤ Word.greatest ∧ start = s.startOr l.start := by
  unfold advance at h
  split at h
  · rename_i name address hpayload
    cases h
    have hsuits := hs.suits
    rw [hpayload] at hsuits
    rw [Statement.following, Statement.startOr, Statement.startOr, hpayload]
    exact ⟨rfl, Nat.le_trans hsuits.of_start.2 (by decide), rfl⟩
  · rename_i hpayload
    dsimp only at h
    split at h
    · cases h
    · rename_i hbound
      cases h
      have hstartOr := Statement.startOr_of_payload hpayload
      rw [Statement.following, hstartOr, hstartOr, hlocation]
      exact ⟨rfl, Nat.le_of_not_lt hbound, rfl⟩

/-- A label that is new names the statement it stands on, and no other. -/
theorem defineLabel_eq_ok_iff {symbols symbols' : SymbolTable} {s : Statement} :
    defineLabel symbols s = .ok symbols' ↔ s.label = none ∧ symbols' = symbols ∨
      ∃ label, s.label = some label ∧ symbols.define label s.location s.line = (.ok (), symbols') := by
  unfold defineLabel
  split
  · rename_i hlabel
    simp [hlabel, eq_comm]
  · rename_i label hlabel
    simp only [hlabel, reduceCtorEq, false_and, false_or, Option.some.injEq, exists_eq_left']
    split <;> simp [*]

theorem defineLabel_eq_ok {symbols symbols' : SymbolTable} {s : Statement}
    (h : defineLabel symbols s = .ok symbols') (name : String) (address : Nat) :
    symbols'.address? name = some address ↔
      symbols.address? name = some address ∨ s.label = some name ∧ s.location = address := by
  rcases defineLabel_eq_ok_iff.mp h with ⟨hlabel, rfl⟩ | ⟨label, hlabel, hdefine⟩
  · simp [hlabel]
  · have hnew := SymbolTable.address?_eq_none_iff.mpr (SymbolTable.define_eq_ok hdefine).1
    rw [SymbolTable.address?_define hdefine, hlabel]
    split
    · rename_i hname
      subst hname
      simp [hnew]
    · rename_i hname
      simp [hname]

theorem sound_extend {l l' : Layout} {line : SourceLine} (hl : l.Sound) (h : l.extend line = .ok l') :
    l'.Sound := by
  unfold extend at h
  obtain ⟨s, hparse, h⟩ := Checked.bind_eq_ok_iff.mp h
  obtain ⟨⟨start, counter⟩, hadvance, h⟩ := Checked.bind_eq_ok_iff.mp h
  obtain ⟨symbols, hdefine, h⟩ := Checked.bind_eq_ok_iff.mp h
  cases h
  obtain ⟨hs, hlocation⟩ := Statement.parse_wellFormed hparse
  obtain ⟨hcounter, hbound, hstart⟩ := advance_eq_ok hlocation hs hadvance
  constructor
  case wellFormed =>
    intro t ht
    rcases List.mem_append.mp (Array.toList_push ▸ ht) with ht | ht
    · exact hl.wellFormed t ht
    · rw [List.mem_singleton.mp ht]
      exact hs
  case consecutive =>
    show Consecutive 0 (l.statements.push s).toList counter
    rw [Array.toList_push]
    exact consecutive_append.mpr ⟨l.counter, hl.consecutive, hlocation, hcounter.symm⟩
  case bounded => exact hbound
  case located =>
    intro t ht
    rcases List.mem_append.mp (Array.toList_push ▸ ht) with ht | ht
    · exact hl.located t ht
    · rw [List.mem_singleton.mp ht, hlocation]
      exact hl.bounded
  case start =>
    show start = startAddress (l.statements.push s).toList
    rw [Array.toList_push, startAddress, List.foldl_append, hstart, hl.start]
    rfl
  case symbols =>
    intro name address
    rw [defineLabel_eq_ok hdefine, hl.symbols]
    simp [or_and_right, exists_or]

/-- The length counts the bytes from the start address on, where the counter is not below it. -/
theorem Sound.length_of_le {l : Layout} (hl : l.Sound) (h : l.start ≤ l.counter) : l.length = l.counter - l.start := by
  have hbound := hl.bounded
  have hmodulus : Word.greatest < Word.modulus := by decide
  rw [length, Word.ofSigned, Int.emod_eq_of_lt (by omega) (by omega)]
  omega

theorem sound_ofLines {lines : List SourceLine} {l : Layout} (h : ofLines lines = .ok l) : l.Sound :=
  Checked.foldlM_keeps (fun hl h => sound_extend hl h) sound_empty h

end Layout

end Tribyte
