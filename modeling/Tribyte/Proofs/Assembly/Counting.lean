import Mathlib.Data.List.Forall2
import Tribyte.Proofs.Assembly.Acceptance
import Tribyte.Proofs.Machine.Arithmetic

/-! Counting locations.

Where no START comes later than the first line, the location counter only grows: every statement stands where the one
before it ends, and the length of the layout is what its statements take together (`Layout.Counted`). None of the
numbers leaves 24 bits, so that 32-bit words give the same ones (`locations_exact`). -/
namespace Tribyte

/-! ### Statements and lines -/

theorem Listed.forall₂ {counter : Nat} {lines : List SourceLine} {ss : List Statement} (h : Listed counter lines ss) :
    List.Forall₂ (fun line s => Statement.parse line.fields s.location line.number = .ok s) lines ss := by
  induction h with
  | nil => exact .nil
  | cons hparse _ ih =>
    refine .cons ?_ ih
    rw [(Statement.parse_wellFormed hparse).2]
    exact hparse

/-- A label that comes once is found once. -/
theorem filter_label {ss : List Statement}
    (h : ss.Pairwise fun s t => ∀ name, s.label = some name → t.label ≠ some name) {s : Statement} {name : String}
    (hs : s ∈ ss) (hlabel : s.label = some name) : ss.filter (·.label = some name) = [s] := by
  induction ss with
  | nil => cases hs
  | cons t rest ih =>
    obtain ⟨hapart, hrest⟩ := List.pairwise_cons.mp h
    rcases List.mem_cons.mp hs with rfl | hs
    · have hnone : rest.filter (·.label = some name) = [] := by
        refine List.filter_eq_nil_iff.mpr fun u hu => ?_
        simpa using hapart u hu name hlabel
      rw [List.filter_cons_of_pos (by simpa using hlabel), hnone]
    · have hother : t.label ≠ some name := fun ht => hapart s hs name ht hlabel
      rw [List.filter_cons_of_neg (by simpa using hother), ih hrest hs]

namespace Layout

/-! ### The counter -/

namespace Sound

variable {l : Layout} (hl : l.Sound)
include hl

/-- The counter has moved from the start address by the sizes of the statements. -/
theorem counter_eq (hstart : ∀ s ∈ l.statements.toList.tail, s.operation ≠ .directive .start) :
    l.counter = l.start + totalSize l.statements.toList := by
  have hconsecutive := hl.consecutive
  have haddress := hl.start
  have hwf := hl.wellFormed
  generalize l.statements.toList = ss at *
  cases ss with
  | nil =>
    rw [haddress, ← hconsecutive]
    rfl
  | cons first rest =>
    have hkeep : ∀ s ∈ rest, ∀ address, s.startOr address = address := fun s hs =>
      s.startOr_of_operation (hwf s (List.mem_cons_of_mem first hs)) (hstart s hs)
    obtain ⟨hzero, hrest⟩ := hconsecutive
    have hcounter := hrest.stop_eq fun s hs => hkeep s hs _
    rw [haddress, startAddress, List.foldl_cons, foldl_startOr hkeep, totalSize, hcounter, ← Nat.add_assoc]
    congr 1
    -- START takes no space, and any other statement stands at zero.
    unfold Statement.following Statement.startOr Statement.size
    split
    · rename_i hpayload
      rw [hpayload]
      rfl
    · rw [hzero]

theorem start_le_counter (hstart : ∀ s ∈ l.statements.toList.tail, s.operation ≠ .directive .start) :
    l.start ≤ l.counter := by
  rw [hl.counter_eq hstart]
  exact Nat.le_add_right ..

end Sound

/-- The length is the difference of 32-bit words, cut to 24 bits. -/
theorem length_eq_mask (l : Layout) :
    l.length = ((BitVec.ofNat 32 l.counter - BitVec.ofNat 32 l.start) &&& 0xFFFFFF#32).toNat := by
  rw [← Word.ofSigned_eq_mask, BitVec.toInt_sub, BitVec.toInt_eq_toNat_bmod, BitVec.toInt_eq_toNat_bmod,
    BitVec.toNat_ofNat, BitVec.toNat_ofNat]
  simp only [length, Word.ofSigned, Int.bmod, Word.modulus]
  omega

/-- What the location counter makes of lines. -/
structure Counted (l : Layout) (lines : List SourceLine) : Prop where
  /-- Each line is parsed to one statement, in order. -/
  parsed : List.Forall₂ (fun line s => Statement.parse line.fields s.location line.number = .ok s) lines
    l.statements.toList
  first : ∀ s rest, l.statements.toList = s :: rest → s.location = 0
  /-- The statement behind START stands at its address. -/
  afterStart : ∀ s t rest name address, l.statements.toList = s :: t :: rest → s.payload = .start name address →
    t.location = address
  /-- Any other statement stands where the one before it ends. -/
  afterOther : ∀ front s t back, l.statements.toList = front ++ s :: t :: back → s.operation ≠ .directive .start →
    t.location = s.location + s.size
  bounded : ∀ s ∈ l.statements.toList, s.location ≤ Word.greatest ∧ s.location + s.size ≤ Word.greatest
  reserved : ∀ s ∈ l.statements.toList, ∀ count unit, s.payload = .reserve count unit →
    (BitVec.ofNat 32 count * BitVec.ofNat 32 unit).toNat = s.size ∧ s.size = count * unit
  ordered : l.start ≤ l.counter ∧ l.counter ≤ Word.greatest
  length : l.length = totalSize l.statements.toList
  masked : l.length = ((BitVec.ofNat 32 l.counter - BitVec.ofNat 32 l.start) &&& 0xFFFFFF#32).toNat
  /-- A label is defined where exactly one statement carries it. -/
  symbols : ∀ name address, l.symbols.address? name = some address ↔
    ∃ s, l.statements.toList.filter (·.label = some name) = [s] ∧ s.location = address

end Layout

theorem Statement.end_le {s : Statement} (hlocation : s.location ≤ Word.greatest)
    (hfollowing : s.following ≤ Word.greatest) : s.location + s.size ≤ Word.greatest := by
  unfold Statement.following Statement.startOr at hfollowing
  split at hfollowing
  · rename_i hpayload
    rw [Statement.size, hpayload]
    exact hlocation
  · exact hfollowing

theorem Statement.WellFormed.reserve_exact {s : Statement} (hs : s.WellFormed) {count unit : Nat}
    (hpayload : s.payload = .reserve count unit) :
    (BitVec.ofNat 32 count * BitVec.ofNat 32 unit).toNat = s.size ∧ s.size = count * unit := by
  have hsize : s.size = count * unit := by
    rw [Statement.size, hpayload, Payload.size]
  have hbound : count * unit ≤ Word.greatest := Payload.Suits.of_reserve (hpayload ▸ hs.suits)
  refine ⟨?_, hsize⟩
  rw [BitVec.toNat_mul, BitVec.toNat_ofNat, BitVec.toNat_ofNat, ← Nat.mul_mod, hsize]
  exact Nat.mod_eq_of_lt (Nat.lt_of_le_of_lt hbound (by decide))

/-- Lines whose only START, if any, comes first are laid out one behind the other. -/
theorem locations_exact {lines : List SourceLine} {l : Layout} (h : Layout.ofLines lines = .ok l)
    (hstart : ∀ s ∈ l.statements.toList.tail, s.operation ≠ .directive .start) : l.Counted lines := by
  have hl := Layout.sound_ofLines h
  have hentered := Layout.entered_ofLines h
  have hconsecutive := hl.consecutive
  constructor
  case parsed => exact hentered.listed.forall₂
  case first =>
    intro s rest hs
    rw [hs] at hconsecutive
    exact hconsecutive.1
  case afterStart =>
    intro s t rest name address hs hpayload
    rw [hs] at hconsecutive
    rw [hconsecutive.2.1, Statement.following, Statement.startOr, hpayload]
  case afterOther =>
    intro front s t back hs hoperation
    have hwf := hl.wellFormed s (by simp [hs])
    rw [hs] at hconsecutive
    obtain ⟨middle, -, -, hnext⟩ := consecutive_append.mp hconsecutive
    rw [hnext.1, Statement.following, s.startOr_of_operation hwf hoperation]
  case bounded =>
    intro s hs
    have hlocation := hl.located s hs
    exact ⟨hlocation, Statement.end_le hlocation (hentered.bounded s hs)⟩
  case reserved =>
    intro s hs count unit hpayload
    exact (hl.wellFormed s hs).reserve_exact hpayload
  case ordered => exact ⟨hl.start_le_counter hstart, hl.bounded⟩
  case length =>
    rw [hl.length_of_le (hl.start_le_counter hstart), hl.counter_eq hstart, Nat.add_sub_cancel_left]
  case masked => exact l.length_eq_mask
  case symbols =>
    intro name address
    rw [hl.symbols]
    constructor
    · rintro ⟨s, hs, hlabel, hlocation⟩
      exact ⟨s, filter_label hentered.distinct hs hlabel, hlocation⟩
    · rintro ⟨s, hfilter, hlocation⟩
      have hmem : s ∈ l.statements.toList.filter (·.label = some name) := hfilter ▸ List.mem_singleton_self s
      obtain ⟨hs, hlabel⟩ := List.mem_filter.mp hmem
      exact ⟨s, hs, of_decide_eq_true hlabel, hlocation⟩

/-- One statement of each kind, up to the last address: the counter ends at the greatest word, and so does the last
label. -/
theorem reservations_fill_address_space :
    ∃ l, Layout.ofLines [⟨1, ["P", "START", "0010"]⟩, ⟨2, ["LDA", "A,X"]⟩, ⟨3, ["W", "WORD", "-2"]⟩,
        ⟨4, ["BYTE", "c'abc'"]⟩, ⟨6, ["A", "RESW", "5592396"]⟩, ⟨7, ["B", "RESB", "2"]⟩, ⟨9, ["C", "END"]⟩] = .ok l ∧
      l.statements.toList.map Statement.location = [0, 0x10, 0x13, 0x16, 0x19, 0xFFFFFD, 0xFFFFFF] ∧
      totalSize l.statements.toList = 0xFFFFEF ∧ l.length = 0xFFFFEF ∧
      (∃ s, l.statements.toList.filter (·.label = some "C") = [s] ∧ s.location = 0xFFFFFF) ∧
      ∀ s ∈ l.statements.toList, s.location + s.size ≤ Word.greatest := by
  have hcheck : (Layout.ofLines [⟨1, ["P", "START", "0010"]⟩, ⟨2, ["LDA", "A,X"]⟩, ⟨3, ["W", "WORD", "-2"]⟩,
      ⟨4, ["BYTE", "c'abc'"]⟩, ⟨6, ["A", "RESW", "5592396"]⟩, ⟨7, ["B", "RESB", "2"]⟩,
      ⟨9, ["C", "END"]⟩]).toOption.any fun l =>
        l.statements.toList.map Statement.location = [0, 0x10, 0x13, 0x16, 0x19, 0xFFFFFD, 0xFFFFFF] ∧
        totalSize l.statements.toList = 0xFFFFEF ∧ l.symbols.address? "C" = some 0xFFFFFF ∧
        ∀ s ∈ l.statements.toList.tail, s.operation ≠ .directive .start := by
    decide +kernel
  generalize hlines : Layout.ofLines _ = result at hcheck
  cases result with
  | error e => cases hcheck
  | ok l =>
    obtain ⟨hlocations, htotal, haddress, hstart⟩ := of_decide_eq_true hcheck
    have hcounted := locations_exact hlines hstart
    refine ⟨l, rfl, hlocations, htotal, hcounted.length.trans htotal, (hcounted.symbols "C" _).mp haddress, ?_⟩
    intro s hs
    exact (hcounted.bounded s hs).2

end Tribyte
