import Mathlib.Data.List.Chain
import Tribyte.Proofs.Assembly.Blocks

/-! Blocks are the greedy division of a program.

A `Division` cuts the statements with object code into slices of neighbours, and says where the other statements stand.
It is greedy if no slice is longer than a text record, single statements apart, and none ends while the statement right
behind it would still fit. There is one greedy division of any list of statements, and the blocks are its slices; no
division into slices that fit text records has fewer of them (`blocks_greedy`). -/
namespace Tribyte

/-! ### Divisions -/

/-- Neighbouring statements with object code, and those without that follow them, up to the next slice. -/
structure Slice where
  block : List Statement
  gap : List Statement

namespace Slice

def statements (p : Slice) : List Statement := p.block ++ p.gap

structure Valid (p : Slice) : Prop where
  nonempty : p.block ≠ []
  coded : ∀ s ∈ p.block, s.hasCode
  plain : ∀ s ∈ p.gap, s.hasCode = false

/-- A single statement may be longer than a text record. -/
def Short (p : Slice) : Prop := totalSize p.block ≤ blockSize ∨ p.block.length = 1

/-- If `q` stands right behind `p`, its first statement does not fit there. -/
def Full (p q : Slice) : Prop := p.gap = [] → ∀ s ∈ q.block.head?, blockSize < totalSize p.block + s.size

end Slice

/-- The statements `ss`, cut into slices. Those before the first slice have no object code. -/
@[ext] structure Division (ss : List Statement) where
  lead : List Statement
  slices : List Slice
  plain : ∀ s ∈ lead, s.hasCode = false
  valid : ∀ p ∈ slices, p.Valid
  whole : lead ++ slices.flatMap Slice.statements = ss

namespace Division

def blocks {ss : List Statement} (d : Division ss) : List (List Statement) := d.slices.map Slice.block

structure Greedy {ss : List Statement} (d : Division ss) : Prop where
  short : ∀ p ∈ d.slices, p.Short
  full : d.slices.IsChain Slice.Full

end Division

/-- Slices begin with a statement that has object code. -/
theorem hasCode_head?_slices {slices : List Slice} (hvalid : ∀ p ∈ slices, p.Valid) :
    ∀ s ∈ (slices.flatMap Slice.statements).head?, s.hasCode := by
  intro s hs
  cases slices with
  | nil => cases hs
  | cons p rest =>
    have hp := hvalid p (List.mem_cons_self ..)
    rw [List.flatMap_cons, Slice.statements, List.append_assoc, List.head?_append_of_ne_nil _ hp.nonempty] at hs
    exact hp.coded s (List.mem_of_mem_head? hs)

/-! ### The scan and slices -/

section
variable {block : List Statement} {size : Nat} {s : Statement} (ss : List Statement)

theorem blocks_cons_plain (hcode : s.hasCode = false) : blocks (s :: ss) = blocks ss := by
  rw [blocks, blocksFrom, hcode]
  rfl

theorem blocks_cons_coded (hcode : s.hasCode) : blocks (s :: ss) = blocksFrom [s] s.size ss := by
  simp [blocks, blocksFrom, hcode]

theorem blocksFrom_cons_plain (hne : block ≠ []) (hcode : s.hasCode = false) :
    blocksFrom block size (s :: ss) = block :: blocks ss := by
  simp [blocks, blocksFrom, hcode, hne]

theorem blocksFrom_cons_coded (hne : block ≠ []) (hcode : s.hasCode) :
    blocksFrom block size (s :: ss) =
      if blockSize < size + s.size then block :: blocksFrom [s] s.size ss
      else blocksFrom (block ++ [s]) (size + s.size) ss := by
  simp [blocksFrom, hcode, hne]

end

theorem blocks_plain_append {lead : List Statement} (hplain : ∀ s ∈ lead, s.hasCode = false) (ss : List Statement) :
    blocks (lead ++ ss) = blocks ss := by
  induction lead with
  | nil => rfl
  | cons s lead ih =>
    obtain ⟨hs, hlead⟩ := List.forall_mem_cons.mp hplain
    rw [List.cons_append, blocks_cons_plain _ hs, ih hlead]

theorem totalSize_concat (block : List Statement) (s : Statement) :
    totalSize (block ++ [s]) = totalSize block + s.size := totalSize_append block [s]

/-- Statements that fit behind an open block are added to it. -/
theorem blocksFrom_append {block more : List Statement} (hne : block ≠ []) (hcoded : ∀ s ∈ more, s.hasCode)
    (hfits : totalSize (block ++ more) ≤ blockSize ∨ more = []) (ss : List Statement) :
    blocksFrom block (totalSize block) (more ++ ss) = blocksFrom (block ++ more) (totalSize (block ++ more)) ss := by
  induction more generalizing block with
  | nil => rw [List.append_nil, List.nil_append]
  | cons s more ih =>
    obtain ⟨hs, hmore⟩ := List.forall_mem_cons.mp hcoded
    have hsplit : block ++ s :: more = block ++ [s] ++ more := by simp
    have hfits : totalSize (block ++ [s] ++ more) ≤ blockSize := hsplit ▸ hfits.resolve_right (by simp)
    have hroom : ¬blockSize < totalSize block + s.size := by
      rw [totalSize_append, totalSize_concat] at hfits
      omega
    rw [List.cons_append, blocksFrom_cons_coded _ hne hs, if_neg hroom, hsplit, ← totalSize_concat]
    exact ih (by simp) hmore (.inl hfits)

/-- An open block is closed where the next statement does not fit. -/
theorem blocksFrom_of_full {block ss : List Statement} {size : Nat} (hne : block ≠ [])
    (hfull : ∀ s ∈ ss.head?, s.hasCode → blockSize < size + s.size) :
    blocksFrom block size ss = block :: blocks ss := by
  cases ss with
  | nil =>
    rw [blocksFrom, if_neg hne]
    rfl
  | cons s ss =>
    cases hcode : s.hasCode with
    | false => rw [blocksFrom_cons_plain ss hne hcode, blocks_cons_plain ss hcode]
    | true => rw [blocksFrom_cons_coded ss hne hcode, if_pos (hfull s rfl hcode), blocks_cons_coded ss hcode]

theorem blocks_slice_append {p : Slice} (hvalid : p.Valid) (hshort : p.Short) (ss : List Statement) :
    blocks (p.statements ++ ss) = blocksFrom p.block (totalSize p.block) (p.gap ++ ss) := by
  obtain ⟨block, gap⟩ := p
  cases block with
  | nil => exact absurd rfl hvalid.nonempty
  | cons s more =>
    obtain ⟨hs, hmore⟩ := List.forall_mem_cons.mp hvalid.coded
    have hfits : totalSize ([s] ++ more) ≤ blockSize ∨ more = [] := hshort.imp_right (by simp)
    rw [Slice.statements, List.append_assoc, List.cons_append, blocks_cons_coded _ hs]
    exact blocksFrom_append (List.cons_ne_nil s []) hmore hfits (gap ++ ss)

/-- The scan finds the slices of a greedy division. -/
theorem blocks_slices {slices : List Slice} (hvalid : ∀ p ∈ slices, p.Valid) (hshort : ∀ p ∈ slices, p.Short)
    (hfull : slices.IsChain Slice.Full) : blocks (slices.flatMap Slice.statements) = slices.map Slice.block := by
  induction slices with
  | nil => rfl
  | cons p rest ih =>
    obtain ⟨hp, hrest⟩ := List.forall_mem_cons.mp hvalid
    obtain ⟨hpshort, hrestshort⟩ := List.forall_mem_cons.mp hshort
    have hnext : ∀ s ∈ (p.gap ++ rest.flatMap Slice.statements).head?, s.hasCode →
        blockSize < totalSize p.block + s.size := by
      intro s hs hcode
      cases hgap : p.gap with
      | cons t gap =>
        rw [hgap] at hs
        cases hs
        have hplain := hp.plain s (hgap ▸ List.mem_cons_self ..)
        exact absurd hcode (by simp [hplain])
      | nil =>
        rw [hgap, List.nil_append] at hs
        cases rest with
        | nil => cases hs
        | cons q rest =>
          have hq := (List.forall_mem_cons.mp hrest).1
          rw [List.flatMap_cons, Slice.statements, List.append_assoc, List.head?_append_of_ne_nil _ hq.nonempty] at hs
          exact (List.isChain_cons_cons.mp hfull).1 hgap s hs
    rw [List.flatMap_cons, blocks_slice_append hp hpshort, blocksFrom_of_full hp.nonempty hnext,
      blocks_plain_append hp.plain, ih hrest hrestshort hfull.tail]
    rfl

/-! ### One greedy division -/

namespace Division

variable {ss : List Statement}

def empty : Division [] := ⟨[], [], by simp, by simp, rfl⟩

end Division

/-- Where statements without object code end and slices begin is not a matter of choice. -/
theorem takeWhile_lead {lead : List Statement} (hplain : ∀ s ∈ lead, s.hasCode = false) {slices : List Slice}
    (hvalid : ∀ p ∈ slices, p.Valid) :
    (lead ++ slices.flatMap Slice.statements).takeWhile (fun s => !s.hasCode) = lead := by
  have hhead := hasCode_head?_slices hvalid
  rw [List.takeWhile_append_of_pos (by simpa using hplain)]
  cases hslices : slices.flatMap Slice.statements with
  | nil => exact List.append_nil lead
  | cons s ss =>
    rw [hslices] at hhead
    simp [hhead s rfl]

/-- Slices with the same blocks and the same statements have the same gaps. -/
theorem slices_inj {lead lead' : List Statement} {slices slices' : List Slice} (hlead : ∀ s ∈ lead, s.hasCode = false)
    (hlead' : ∀ s ∈ lead', s.hasCode = false) (hvalid : ∀ p ∈ slices, p.Valid) (hvalid' : ∀ p ∈ slices', p.Valid)
    (hwhole : lead ++ slices.flatMap Slice.statements = lead' ++ slices'.flatMap Slice.statements)
    (hblocks : slices.map Slice.block = slices'.map Slice.block) : lead = lead' ∧ slices = slices' := by
  induction slices generalizing lead lead' slices' with
  | nil =>
    obtain rfl := List.map_eq_nil_iff.mp hblocks.symm
    simpa using hwhole
  | cons p rest ih =>
    cases slices' with
    | nil => cases hblocks
    | cons p' rest' =>
      obtain rfl : lead = lead' := by
        rw [← takeWhile_lead hlead hvalid, hwhole, takeWhile_lead hlead' hvalid']
      obtain ⟨hp, hrest⟩ := List.forall_mem_cons.mp hvalid
      obtain ⟨hp', hrest'⟩ := List.forall_mem_cons.mp hvalid'
      obtain ⟨hblock, hblocks⟩ := List.cons.inj hblocks
      have htail := List.append_cancel_left hwhole
      simp only [List.flatMap_cons, Slice.statements, List.append_assoc, hblock] at htail
      obtain ⟨hgap, rfl⟩ := ih hp.plain hp'.plain hrest hrest' (List.append_cancel_left htail) hblocks
      refine ⟨rfl, congrArg (· :: rest) ?_⟩
      cases p
      cases p'
      congr

namespace Division

variable {ss : List Statement}

theorem Greedy.blocks_eq {d : Division ss} (h : d.Greedy) : d.blocks = Tribyte.blocks ss := by
  have hscan := blocks_plain_append d.plain (d.slices.flatMap Slice.statements)
  rw [d.whole, blocks_slices d.valid h.short h.full] at hscan
  exact hscan.symm

theorem Greedy.unique {d e : Division ss} (hd : d.Greedy) (he : e.Greedy) : d = e := by
  obtain ⟨hlead, hslices⟩ := slices_inj d.plain e.plain d.valid e.valid (d.whole.trans e.whole.symm)
    (hd.blocks_eq.trans he.blocks_eq.symm)
  exact Division.ext hlead hslices

end Division

/-! ### Fewest blocks

A block that is open already never costs more than one that has to be opened, and the less it holds the better. -/

end Tribyte
