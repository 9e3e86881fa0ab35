import Mathlib.Data.Finset.Card
import Mathlib.Data.List.Sort
import Tribyte.Proofs.Assembly.Locations
import Tribyte.Proofs.Text.Utf8

/-! Symbol tables as finite maps, and how they are listed.

A table comes of definitions that are made one after another. A name that is taken is refused and changes nothing, so
that the table holds the first definition of each name (`symbol?_ofDefinitions`); what it answers follows from that.
Its listing is the only one in strict order that has just these names with their addresses (`eq_sorted`), in whatever
order the entries are stored (`listing_of_perm`) and the definitions were made. -/
namespace Tribyte

/-- A label, its address and the line that defines it. -/
structure Definition where
  name : String
  address : Nat
  line : Nat
  deriving DecidableEq, Repr

namespace Definition

def symbol (d : Definition) : Symbol := ⟨d.address, d.line⟩

/-- The first definition of a name. -/
def first? (ds : List Definition) (name : String) : Option Definition := ds.find? fun d => d.name = name

theorem first?_cons (d : Definition) (ds : List Definition) (name : String) :
    first? (d :: ds) name = if d.name = name then some d else first? ds name := by
  rw [first?, List.find?_cons]
  by_cases hname : d.name = name
  · simp [hname]
  · simp [hname, first?]

theorem first?_eq_none_iff {ds : List Definition} {name : String} :
    first? ds name = none ↔ ∀ d ∈ ds, d.name ≠ name := by
  simp [first?, List.find?_eq_none]

/-- Where no name is defined twice, the first definition of a name is the only one. -/
theorem first?_eq_some_iff {ds : List Definition} (hds : (ds.map name).Nodup) {name : String} {d : Definition} :
    first? ds name = some d ↔ d ∈ ds ∧ d.name = name := by
  induction ds with
  | nil => simp [first?]
  | cons e ds ih =>
    rw [List.map_cons, List.nodup_cons] at hds
    rw [first?_cons, List.mem_cons]
    by_cases hname : e.name = name
    · rw [if_pos hname]
      constructor
      · rintro ⟨⟩
        exact ⟨.inl rfl, hname⟩
      · rintro ⟨rfl | hd, hdname⟩
        · rfl
        · exact absurd (List.mem_map.mpr ⟨d, hd, hdname.trans hname.symm⟩) hds.1
    · rw [if_neg hname, ih hds.2]
      constructor
      · rintro ⟨hd, hdname⟩
        exact ⟨.inr hd, hdname⟩
      · rintro ⟨rfl | hd, hdname⟩
        · exact absurd hdname hname
        · exact ⟨hd, hdname⟩

theorem first?_of_perm {ds es : List Definition} (hperm : es.Perm ds) (hds : (ds.map name).Nodup) (name : String) :
    first? es name = first? ds name := by
  have hes : (es.map Definition.name).Nodup := (hperm.map _).nodup_iff.mpr hds
  apply Option.ext
  intro d
  rw [first?_eq_some_iff hes, first?_eq_some_iff hds, hperm.mem_iff]

end Definition

open Definition

namespace SymbolTable

/-! ### Tables from definitions -/

/-- The table after definitions, each made whether or not those before it were refused. -/
def ofDefinitions (ds : List Definition) : SymbolTable :=
  ds.foldl (fun t d => (t.define d.name d.address d.line).2) empty

theorem symbol?_define (t : SymbolTable) (d : Definition) (name : String) :
    (t.define d.name d.address d.line).2.symbol? name =
      (t.symbol? name).or (if d.name = name then some d.symbol else none) := by
  cases hentry : t.symbol? d.name with
  | none =>
    rw [define_of_none hentry, symbol?_insert]
    by_cases hname : d.name = name
    · rw [if_pos hname, if_pos hname, ← hname, hentry]
      rfl
    · rw [if_neg hname, if_neg hname, Option.or_none]
  | some earlier =>
    rw [define_of_some hentry]
    by_cases hname : d.name = name
    · rw [← hname, hentry]
      rfl
    · rw [if_neg hname, Option.or_none]

theorem symbol?_foldl_define (ds : List Definition) (t : SymbolTable) (name : String) :
    (ds.foldl (fun t d => (t.define d.name d.address d.line).2) t).symbol? name =
      (t.symbol? name).or ((first? ds name).map symbol) := by
  induction ds generalizing t with
  | nil => simp [first?]
  | cons d ds ih =>
    rw [List.foldl_cons, ih, symbol?_define, first?_cons, Option.or_assoc]
    by_cases hname : d.name = name
    · rw [if_pos hname, if_pos hname]
      rfl
    · rw [if_neg hname, if_neg hname, Option.none_or]

/-- A table holds the first definition of each name. -/
theorem symbol?_ofDefinitions (ds : List Definition) (name : String) :
    (ofDefinitions ds).symbol? name = (first? ds name).map symbol := symbol?_foldl_define ds empty name

theorem address?_ofDefinitions (ds : List Definition) (name : String) :
    (ofDefinitions ds).address? name = (first? ds name).map Definition.address := by
  rw [address?, symbol?_ofDefinitions, Option.map_map]
  rfl

theorem define_ofDefinitions_iff (ds : List Definition) (d : Definition) :
    (∃ u, (ofDefinitions ds).define d.name d.address d.line = (.ok (), u)) ↔ ∀ e ∈ ds, e.name ≠ d.name := by
  rw [exists_define_iff, symbol?_ofDefinitions, Option.map_eq_none_iff, first?_eq_none_iff]

theorem define_eq_error {ds : List Definition} {d : Definition} {e : SourceError} {u : SymbolTable}
    (h : (ofDefinitions ds).define d.name d.address d.line = (.error e, u)) :
    u = ofDefinitions ds ∧ ∃ first, first? ds d.name = some first ∧ e = .duplicateLabel d.line d.name first.line := by
  have hentry := symbol?_ofDefinitions ds d.name
  cases hfirst : first? ds d.name with
  | none =>
    rw [hfirst, Option.map_none] at hentry
    rw [define_of_none hentry] at h
    cases h
  | some first =>
    rw [hfirst, Option.map_some] at hentry
    rw [define_of_some hentry] at h
    cases h
    exact ⟨rfl, first, rfl, rfl⟩

theorem size_ofDefinitions (ds : List Definition) :
    (ofDefinitions ds).size = (ds.map Definition.name).toFinset.card := by
  have hnames : ((ofDefinitions ds).entries.map Prod.fst).toFinset = (ds.map Definition.name).toFinset := by
    ext name
    rw [List.mem_toFinset, List.mem_toFinset, ← not_iff_not, ← symbol?_eq_none_iff, symbol?_ofDefinitions,
      Option.map_eq_none_iff, first?_eq_none_iff]
    simp
  rw [← hnames, List.toFinset_card_of_nodup (ofDefinitions ds).distinct, List.length_map, size]

/-! ### Listings -/

/-- The order of a listing: by address, and at one address by the bytes of the name. -/
def Before (e f : String × Nat) : Prop :=
  e.2 < f.2 ∨ e.2 = f.2 ∧ Text.Utf8.encode e.1.toList < Text.Utf8.encode f.1.toList

theorem before_iff {e f : String × Nat} : Before e f ↔ e.2 < f.2 ∨ e.2 = f.2 ∧ ¬f.1 ≤ e.1 := by
  rw [Before, Text.Utf8.encode_lt_iff, String.not_le]
  rfl

instance : DecidableRel Before := fun _ _ => decidable_of_iff _ before_iff.symm

theorem Before.asymm {e f : String × Nat} (hef : Before e f) : ¬Before f e := by
  intro hfe
  rcases before_iff.mp hef with hlt | ⟨heq, hname⟩
  · rcases before_iff.mp hfe with hlt' | ⟨heq', -⟩ <;> omega
  · rcases before_iff.mp hfe with hlt' | ⟨-, hname'⟩
    · omega
    · rcases String.le_total e.1 f.1 with hle | hle
      · exact hname' hle
      · exact hname hle

instance : Std.Irrefl Before where
  irrefl := fun _ h => h.asymm h

instance : Std.Antisymm Before where
  antisymm := fun _ _ hef hfe => absurd hfe hef.asymm

theorem precedes_iff {e f : String × Nat} : precedes e f ↔ e.2 < f.2 ∨ e.2 = f.2 ∧ e.1 ≤ f.1 := by
  simp [precedes]

theorem precedes_trans (e f g : String × Nat) (hef : precedes e f) (hfg : precedes f g) : precedes e g := by
  rw [precedes_iff] at *
  rcases hef with hlt | ⟨heq, hname⟩
  · exact .inl (by omega)
  · rcases hfg with hlt' | ⟨heq', hname'⟩
    · exact .inl (by omega)
    · exact .inr ⟨heq.trans heq', String.le_trans hname hname'⟩

theorem precedes_total (e f : String × Nat) : precedes e f || precedes f e := by
  rw [Bool.or_eq_true, precedes_iff, precedes_iff]
  rcases Nat.lt_trichotomy e.2 f.2 with hlt | heq | hgt
  · exact .inl (.inl hlt)
  · rcases String.le_total e.1 f.1 with hle | hle
    · exact .inl (.inr ⟨heq, hle⟩)
    · exact .inr (.inr ⟨heq.symm, hle⟩)
  · exact .inr (.inl hgt)

theorem listing_perm (entries : List (String × Symbol)) :
    (listing entries).Perm (entries.map fun e => (e.1, e.2.address)) := List.mergeSort_perm _ precedes

theorem nodup_names_listing {entries : List (String × Symbol)} (h : (entries.map Prod.fst).Nodup) :
    ((listing entries).map Prod.fst).Nodup := by
  have hperm := (listing_perm entries).map Prod.fst
  rw [List.map_map] at hperm
  exact hperm.nodup_iff.mpr h

/-- No two entries of a listing stand in the same place, as their names differ. -/
theorem pairwise_listing {entries : List (String × Symbol)} (h : (entries.map Prod.fst).Nodup) :
    (listing entries).Pairwise Before := by
  have hsorted : (listing entries).Pairwise fun e f => precedes e f :=
    List.pairwise_mergeSort precedes_trans precedes_total _
  have hnames : (listing entries).Pairwise fun e f => e.1 ≠ f.1 := List.pairwise_map.mp (nodup_names_listing h)
  apply (hsorted.and hnames).imp
  rintro e f ⟨hprecedes, hname⟩
  rw [before_iff]
  rcases precedes_iff.mp hprecedes with hlt | ⟨heq, hle⟩
  · exact .inl hlt
  · exact .inr ⟨heq, fun hge => hname (String.le_antisymm hle hge)⟩

/-- Entries have one listing, in whatever order they are stored. -/
theorem listing_of_perm {entries others : List (String × Symbol)} (hperm : others.Perm entries)
    (h : (entries.map Prod.fst).Nodup) : listing others = listing entries := by
  have hothers : (others.map Prod.fst).Nodup := (hperm.map _).nodup_iff.mpr h
  apply (pairwise_listing hothers).eq_of_mem_iff (pairwise_listing h)
  intro e
  rw [(listing_perm others).mem_iff, (listing_perm entries).mem_iff, (hperm.map _).mem_iff]

theorem mem_entries {t : SymbolTable} {name : String} {symbol : Symbol} :
    (name, symbol) ∈ t.entries ↔ t.symbol? name = some symbol := by
  obtain ⟨entries, distinct⟩ := t
  show _ ∈ entries ↔ entries.lookup name = some symbol
  induction entries with
  | nil => simp
  | cons e rest ih =>
    obtain ⟨first, held⟩ := e
    obtain ⟨hnew, hrest⟩ := List.nodup_cons.mp distinct
    by_cases hname : name = first
    · subst hname
      have hother : (name, symbol) ∉ rest := fun hmem => hnew (List.mem_map.mpr ⟨_, hmem, rfl⟩)
      simp [hother, eq_comm]
    · have hother : (name == first) = false := beq_false_of_ne hname
      simp only [List.mem_cons, Prod.mk.injEq, hname, false_and, false_or, List.lookup_cons, hother, ih hrest]

theorem mem_sorted {t : SymbolTable} {name : String} {address : Nat} :
    (name, address) ∈ t.sorted ↔ t.address? name = some address := by
  rw [sorted, (listing_perm t.entries).mem_iff, address?, Option.map_eq_some_iff]
  simp [← mem_entries]

theorem pairwise_sorted (t : SymbolTable) : t.sorted.Pairwise Before := pairwise_listing t.distinct

/-- A table has one listing. -/
theorem eq_sorted {t : SymbolTable} {listing : List (String × Nat)} (hordered : listing.Pairwise Before)
    (hmem : ∀ name address, (name, address) ∈ listing ↔ t.address? name = some address) : listing = t.sorted := by
  apply hordered.eq_of_mem_iff t.pairwise_sorted
  intro e
  rw [hmem e.1 e.2, ← mem_sorted]

theorem sorted_eq_iff {t u : SymbolTable} : t.sorted = u.sorted ↔ ∀ name, t.address? name = u.address? name := by
  constructor
  · intro h name
    apply Option.ext
    intro address
    rw [← mem_sorted, ← mem_sorted, h]
  · intro h
    apply eq_sorted t.pairwise_sorted
    intro name address
    rw [mem_sorted, h]

/-- What a table says of the definitions that were made in it, and what it answers to the next. -/
structure Tabulates (t : SymbolTable) (ds : List Definition) : Prop where
  accepts : ∀ d : Definition, (∃ u, t.define d.name d.address d.line = (.ok (), u)) ↔ ∀ e ∈ ds, e.name ≠ d.name
  refuses : ∀ (d : Definition) (e : SourceError) (u : SymbolTable), t.define d.name d.address d.line = (.error e, u) →
    u = t ∧ ∃ first, first? ds d.name = some first ∧ e = .duplicateLabel d.line d.name first.line
  address : ∀ name, t.address? name = (first? ds name).map Definition.address
  size : t.size = (ds.map Definition.name).toFinset.card
  once : (t.sorted.map Prod.fst).Nodup
  listed : ∀ name address, (name, address) ∈ t.sorted ↔ ∃ first, first? ds name = some first ∧ first.address = address
  ordered : t.sorted.Pairwise Before
  stored : ∀ entries : List (String × Symbol), entries.Perm t.entries → listing entries = t.sorted

theorem tabulates_ofDefinitions (ds : List Definition) : (ofDefinitions ds).Tabulates ds where
  accepts := define_ofDefinitions_iff ds
  refuses := fun _ _ _ => define_eq_error
  address := address?_ofDefinitions ds
  size := size_ofDefinitions ds
  once := nodup_names_listing (ofDefinitions ds).distinct
  listed := by
    intro name address
    rw [mem_sorted, address?_ofDefinitions, Option.map_eq_some_iff]
  ordered := pairwise_sorted _
  stored := fun _ hperm => listing_of_perm hperm (ofDefinitions ds).distinct

/-- Definitions make a finite map: a name is taken by its first definition, and every later one is refused and changes
nothing. The listing has each name once, in strict order of addresses and names. It depends neither on the order in
which the entries are stored nor on the order in which the definitions were made. -/
theorem definitions_tabulated (ds : List Definition) :
    (ofDefinitions ds).Tabulates ds ∧
    (∀ es, (ofDefinitions es).sorted = (ofDefinitions ds).sorted ↔
      ∀ name, (first? es name).map Definition.address = (first? ds name).map Definition.address) ∧
    ∀ es, es.Perm ds → (ds.map Definition.name).Nodup → (ofDefinitions es).sorted = (ofDefinitions ds).sorted := by
  refine ⟨tabulates_ofDefinitions ds, ?_, ?_⟩
  · intro es
    simp only [sorted_eq_iff, address?_ofDefinitions]
  · intro es hperm hds
    apply sorted_eq_iff.mpr
    intro name
    rw [address?_ofDefinitions, address?_ofDefinitions, first?_of_perm hperm hds]

/-- Three labels at one address, of one, three and four bytes a character, and one label behind them. -/
def twins : List Definition := [⟨"LATE", 0x30, 3⟩, ⟨"😀", 0x10, 4⟩, ⟨"TWIN", 0x10, 2⟩, ⟨"ｚ", 0x10, 5⟩]

/-- A label is not moved by a second definition; names at one address stand in the order of their bytes, whichever is
defined first. -/
theorem twin_labels_tabulated :
    (ofDefinitions (twins ++ [⟨"TWIN", 0x08, 6⟩])).define "TWIN" 0x40 7 =
      (.error (.duplicateLabel 7 "TWIN" 2), ofDefinitions (twins ++ [⟨"TWIN", 0x08, 6⟩])) ∧
    (ofDefinitions (twins ++ [⟨"TWIN", 0x08, 6⟩])).address? "TWIN" = some 0x10 ∧
    (ofDefinitions (twins ++ [⟨"TWIN", 0x08, 6⟩])).size = 4 ∧
    (ofDefinitions twins).sorted = [("TWIN", 0x10), ("ｚ", 0x10), ("😀", 0x10), ("LATE", 0x30)] ∧
    listing (ofDefinitions twins).entries.reverse = (ofDefinitions twins).sorted ∧
    (ofDefinitions twins.reverse).sorted = (ofDefinitions twins).sorted := by
  have hnames : (twins.map Definition.name).Nodup := by decide
  obtain ⟨htwins, -, hsame⟩ := definitions_tabulated twins
  obtain ⟨hagain, -⟩ := definitions_tabulated (twins ++ [⟨"TWIN", 0x08, 6⟩])
  refine ⟨?_, ?_, ?_, ?_, htwins.stored _ (List.reverse_perm _), hsame _ twins.reverse_perm hnames⟩
  · rcases h : (ofDefinitions (twins ++ [⟨"TWIN", 0x08, 6⟩])).define "TWIN" 0x40 7 with ⟨e | _, u⟩
    · obtain ⟨rfl, first, hfirst, rfl⟩ := hagain.refuses ⟨"TWIN", 0x40, 7⟩ e u h
      cases hfirst
      rfl
    · have hfree := (hagain.accepts ⟨"TWIN", 0x40, 7⟩).mp ⟨u, h⟩
      exact absurd rfl (hfree ⟨"TWIN", 0x08, 6⟩ (by simp))
  · rw [hagain.address]
    rfl
  · rw [hagain.size]
    rfl
  · have hordered : [("TWIN", 0x10), ("ｚ", 0x10), ("😀", 0x10), ("LATE", 0x30)].Pairwise Before := by
      decide
    apply htwins.ordered.eq_of_mem_iff hordered
    rintro ⟨name, address⟩
    simp only [htwins.listed, first?_eq_some_iff hnames]
    simp only [twins, List.mem_cons, List.not_mem_nil, or_false, or_and_right, exists_or, and_assoc, exists_eq_left,
      Prod.mk.injEq, eq_comm (b := name), eq_comm (b := address)]
    constructor
    · rintro (h | h | h | h) <;> simp [h]
    · rintro (h | h | h | h) <;> simp [h]

end SymbolTable

end Tribyte
