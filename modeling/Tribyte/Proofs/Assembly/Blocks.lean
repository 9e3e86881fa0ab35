import Tribyte.Assembly.ObjectCode
import Tribyte.Proofs.Assembly.Locations

/-! Blocks: what they hold, where they stand and how long they get.

Together they hold the statements with object code (`flatten_blocks`). What is true of each block follows
from an invariant of the scan that collects them (`blocksFrom_forall`). -/
namespace Tribyte

/-- Bytes that statements occupy together. -/
def totalSize : List Statement → Nat
  | [] => 0
  | s :: rest => s.size + totalSize rest

theorem totalSize_append (ss ts : List Statement) : totalSize (ss ++ ts) = totalSize ss + totalSize ts := by
  induction ss with
  | nil => rw [List.nil_append, totalSize, Nat.zero_add]
  | cons s rest ih => rw [List.cons_append, totalSize, ih, totalSize, Nat.add_assoc]

/-- Statements that follow one another end where their sizes say. -/
theorem Consecutive.stop_eq {first stop : Nat} {ss : List Statement}
    (hsized : ∀ s ∈ ss, s.following = s.location + s.size) (h : Consecutive first ss stop) :
    stop = first + totalSize ss := by
  induction ss generalizing first with
  | nil => exact h.symm
  | cons s rest ih =>
    obtain ⟨rfl, hrest⟩ := h
    rw [ih (fun t ht => hsized t (List.mem_cons_of_mem s ht)) hrest, hsized s (List.mem_cons_self ..), totalSize,
      Nat.add_assoc]

/-! ### Contents -/

theorem flatten_blocksFrom (block : List Statement) (size : Nat) (ss : List Statement) :
    (blocksFrom block size ss).flatten = block ++ ss.filter Statement.hasCode := by
  induction ss generalizing block size with
  | nil =>
    rw [blocksFrom]
    split <;> simp_all
  | cons s rest ih =>
    rw [blocksFrom]
    split
    · rename_i hcode
      have hskip : (s :: rest).filter Statement.hasCode = rest.filter Statement.hasCode :=
        List.filter_cons_of_neg (by simpa using hcode)
      rw [hskip]
      split
      · rename_i hblock
        rw [ih, hblock]
      · rw [List.flatten_cons, ih, List.nil_append]
    · rename_i hcode
      have htake : (s :: rest).filter Statement.hasCode = s :: rest.filter Statement.hasCode :=
        List.filter_cons_of_pos (by simpa using hcode)
      rw [htake]
      split
      · rw [List.flatten_cons, ih]
        rfl
      · rw [ih, List.append_assoc]
        rfl

/-- Blocks hold the statements that have object code, in order. -/
theorem flatten_blocks (ss : List Statement) : (blocks ss).flatten = ss.filter Statement.hasCode :=
  flatten_blocksFrom [] 0 ss

theorem mem_filter_of_mem_blocks {ss b : List Statement} (hb : b ∈ blocks ss) {s : Statement} (hs : s ∈ b) :
    s ∈ ss.filter Statement.hasCode := by
  rw [← flatten_blocks]
  exact List.mem_flatten.mpr ⟨b, hb, hs⟩

/-- An invariant of the scan, over the open block, its size and the statements still to come. What it says of
the open block, wherever that may be closed, holds of every block. -/
theorem blocksFrom_forall {I : List Statement → Nat → List Statement → Prop} {P : List Statement → Prop}
    (hskip : ∀ {block size s rest}, I block size (s :: rest) → I [] 0 rest)
    (hcut : ∀ {block size s rest}, I block size (s :: rest) → s.hasCode → I [s] s.size rest)
    (hgrow : ∀ {block size s rest}, I block size (s :: rest) → s.hasCode →
      size + s.size ≤ blockSize ∨ block = [] → I (block ++ [s]) (size + s.size) rest)
    (hclose : ∀ {block size ss}, I block size ss → block ≠ [] → P block)
    {block : List Statement} {size : Nat} {ss : List Statement} (h : I block size ss) :
    ∀ b ∈ blocksFrom block size ss, P b := by
  induction ss generalizing block size with
  | nil =>
    intro b hb
    rw [blocksFrom] at hb
    split at hb
    · cases hb
    · rw [List.mem_singleton.mp hb]
      exact hclose h ‹_›
  | cons s rest ih =>
    intro b hb
    rw [blocksFrom] at hb
    split at hb
    · split at hb
      · exact ih (hskip h) b hb
      · rcases List.mem_cons.mp hb with rfl | hb
        · exact hclose h ‹_›
        · exact ih (hskip h) b hb
    · rename_i hcode
      have hcode : s.hasCode := by simpa using hcode
      split at hb
      · rename_i hfull
        rcases List.mem_cons.mp hb with rfl | hb
        · exact hclose h hfull.2
        · exact ih (hcut h hcode) b hb
      · rename_i hroom
        refine ih (hgrow h hcode ?_) b hb
        by_cases hempty : block = []
        · exact .inr hempty
        · exact .inl (Nat.le_of_not_lt fun hover => hroom ⟨hover, hempty⟩)

theorem blocks_ne_nil {ss b : List Statement} (hb : b ∈ blocks ss) : b ≠ [] :=
  blocksFrom_forall (I := fun _ _ _ => True) (fun _ => trivial) (fun _ _ => trivial) (fun _ _ _ => trivial)
    (fun _ h => h) trivial b hb

/-! ### Locations and sizes -/

theorem consecutive_block {first stop : Nat} {ss b : List Statement} (hss : Consecutive first ss stop)
    (hb : b ∈ blocks ss) : ∃ stop, Consecutive (blockStart b) b stop := by
  have hsome : ∃ first stop, Consecutive first b stop := by
    refine blocksFrom_forall
      (I := fun block _ ss => ∃ first middle stop, Consecutive first block middle ∧ Consecutive middle ss stop)
      (P := fun b => ∃ first stop, Consecutive first b stop)
      ?_ ?_ ?_ ?_ ⟨first, first, stop, consecutive_nil first, hss⟩ b hb
    · intro block size s rest h
      obtain ⟨_, _, stop, -, -, hrest⟩ := h
      exact ⟨_, _, stop, consecutive_nil _, hrest⟩
    · intro block size s rest h _
      obtain ⟨_, _, stop, -, -, hrest⟩ := h
      exact ⟨_, _, stop, consecutive_singleton s, hrest⟩
    · intro block size s rest h _ _
      obtain ⟨first, _, stop, hblock, rfl, hrest⟩ := h
      exact ⟨first, _, stop, consecutive_append.mpr ⟨_, hblock, consecutive_singleton s⟩, hrest⟩
    · intro block size ss h _
      obtain ⟨first, middle, -, hblock, -⟩ := h
      exact ⟨first, middle, hblock⟩
  obtain ⟨first, stop, h⟩ := hsome
  cases b with
  | nil => exact absurd rfl (blocks_ne_nil hb)
  | cons s rest => exact ⟨stop, rfl, h.2⟩

theorem totalSize_block {ss b : List Statement} (hss : ∀ s ∈ ss, s.hasCode → s.size ≤ blockSize)
    (hb : b ∈ blocks ss) : totalSize b ≤ blockSize := by
  have hone (s : Statement) : totalSize [s] = s.size := rfl
  refine blocksFrom_forall
    (I := fun block size ss => totalSize block = size ∧ size ≤ blockSize ∧
      ∀ s ∈ ss, s.hasCode → s.size ≤ blockSize)
    (P := fun b => totalSize b ≤ blockSize)
    ?_ ?_ ?_ ?_ ⟨rfl, Nat.zero_le _, hss⟩ b hb
  · intro block size s rest h
    obtain ⟨-, -, hss⟩ := h
    exact ⟨rfl, Nat.zero_le _, fun t ht => hss t (List.mem_cons_of_mem s ht)⟩
  · intro block size s rest h hcode
    obtain ⟨-, -, hss⟩ := h
    exact ⟨hone s, hss s (List.mem_cons_self ..) hcode, fun t ht => hss t (List.mem_cons_of_mem s ht)⟩
  · intro block size s rest h hcode hroom
    obtain ⟨hsize, -, hss⟩ := h
    refine ⟨by rw [totalSize_append, hsize, hone], ?_, fun t ht => hss t (List.mem_cons_of_mem s ht)⟩
    rcases hroom with hroom | rfl
    · exact hroom
    · have hs := hss s (List.mem_cons_self ..) hcode
      rw [← hsize]
      exact (Nat.zero_add s.size).symm ▸ hs
  · intro block size ss h _
    obtain ⟨hsize, hblock, -⟩ := h
    rw [hsize]
    exact hblock

end Tribyte
