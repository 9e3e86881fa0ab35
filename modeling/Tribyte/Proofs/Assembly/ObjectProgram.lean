import Mathlib.Control.Monad.Basic
import Mathlib.Data.List.Pairwise
import Tribyte.Object.File
import Tribyte.Proofs.Assembly.Program
import Tribyte.Proofs.Memory.Contents

/-! The object program of a source text.

Header, text records, modification records, end. The text records hold the object code and nothing else, each on a
stretch of its own, and the modification records name the symbolic addresses one by one (`ObjectProgram`,
`object_program_wellFormed`). An object file holds such records and not a byte more (`object_file_exact`). -/
namespace Tribyte

/-! ### Statements with object code -/

/-- Opcodes, WORD and BYTE. -/
def Operation.isCode : Operation → Bool
  | .opcode _ | .directive .word | .directive .byte => true
  | .directive _ => false

/-- An instruction with a symbolic address. -/
def Statement.isSymbolic (s : Statement) : Bool :=
  match s.payload with
  | .instruction (some _) _ => true
  | _ => false

namespace Statement

variable {symbols : SymbolTable} {s : Statement} {c : ObjectCode}

theorem WellFormed.hasCode_eq (hs : s.WellFormed) : s.hasCode = s.operation.isCode := by
  have hsuits := hs.suits
  unfold Payload.Suits at hsuits
  unfold hasCode Payload.hasCode Operation.isCode
  split at hsuits <;> simp_all

theorem exists_payload_of_isSymbolic (h : s.isSymbolic) :
    ∃ name indexed, s.payload = .instruction (some name) indexed := by
  unfold isSymbolic at h
  split at h
  · exact ⟨_, _, ‹_›⟩
  · cases h

theorem hasCode_of_isSymbolic (h : s.isSymbolic) : s.hasCode := by
  obtain ⟨name, indexed, hpayload⟩ := exists_payload_of_isSymbolic h
  exact hasCode_of_instruction hpayload

theorem size_of_isSymbolic (h : s.isSymbolic) : s.size = Instruction.size := by
  obtain ⟨name, indexed, hpayload⟩ := exists_payload_of_isSymbolic h
  exact size_of_instruction hpayload

theorem fixup_of_coded (h : Coded symbols s c) : c.fixup = if s.isSymbolic then some (s.location + 1) else none := by
  cases h with
  | symbolic _ hpayload => simp [isSymbolic, hpayload]
  | plain _ hpayload | word hpayload | bytes hpayload => simp [isSymbolic, hpayload]

end Statement

/-- Modification records name the symbolic addresses in order. -/
theorem fixupRecords_code {symbols : SymbolTable} {ss : List Statement}
    (hcoded : ∀ s ∈ ss, s.hasCode → Coded symbols s (s.code symbols)) :
    fixupRecords ((ss.filter Statement.hasCode).map (Statement.code symbols)) =
      (ss.filter Statement.isSymbolic).map fun s => .modification (s.location + 1) 2 := by
  induction ss with
  | nil => rfl
  | cons s rest ih =>
    have hrest := ih fun t ht => hcoded t (List.mem_cons_of_mem s ht)
    by_cases hcode : s.hasCode
    · have hfixup := Statement.fixup_of_coded (hcoded s (List.mem_cons_self ..) hcode)
      rw [List.filter_cons_of_pos hcode, List.map_cons, fixupRecords, List.filterMap_cons, hfixup]
      by_cases hsymbolic : s.isSymbolic
      · rw [if_pos hsymbolic, List.filter_cons_of_pos hsymbolic, List.map_cons, ← hrest]
        rfl
      · rw [if_neg hsymbolic, List.filter_cons_of_neg hsymbolic, ← hrest]
        rfl
    · have hsymbolic : ¬s.isSymbolic := fun h => hcode (Statement.hasCode_of_isSymbolic h)
      rw [List.filter_cons_of_neg hcode, List.filter_cons_of_neg hsymbolic, hrest]

/-! ### Blocks as segments -/

/-- `t` holds the bytes of `u` where they belong. -/
def Memory.Segment.Holds (t u : Segment) : Prop :=
  ∃ front back, t.bytes = front ++ u.bytes ++ back ∧ u.address = t.address + front.length

theorem Memory.Segment.Holds.bounds {t u : Segment} (h : t.Holds u) :
    t.address ≤ u.address ∧ u.address + u.bytes.length ≤ t.address + t.bytes.length := by
  obtain ⟨front, back, hbytes, haddress⟩ := h
  rw [haddress, hbytes]
  simp only [List.length_append]
  omega

instance : Std.Symm Memory.Segment.Apart := ⟨fun _ _ => Or.symm⟩

/-- The object code of a block. -/
def blockSegment (symbols : SymbolTable) (b : List Statement) : Memory.Segment :=
  ⟨blockStart b, (b.map (Statement.code symbols)).flatMap ObjectCode.bytes⟩

theorem exists_location_eq_blockStart {ss b : List Statement} (hb : b ∈ blocks ss) :
    ∃ s ∈ b, s.location = blockStart b := by
  obtain ⟨s, rest, rfl⟩ := List.exists_cons_of_ne_nil (blocks_ne_nil hb)
  exact ⟨s, List.mem_cons_self .., rfl⟩

/-- The object code of `b` stands in one piece from `first` on. -/
structure Contiguous (symbols : SymbolTable) (first : Nat) (b : List Statement) : Prop where
  coded : ∀ s ∈ b, Coded symbols s (s.code symbols)
  sized : ∀ s ∈ b, s.following = s.location + s.size
  consecutive : Consecutive first b (first + totalSize b)

namespace Contiguous

variable {symbols : SymbolTable} {first : Nat} {s t : Statement} {b : List Statement}

theorem location_eq (h : Contiguous symbols first (t :: b)) : t.location = first := h.consecutive.1

theorem tail (h : Contiguous symbols first (t :: b)) : Contiguous symbols (first + t.size) b := by
  have hrest := h.consecutive.2
  rw [h.sized t (List.mem_cons_self ..), h.location_eq, totalSize, ← Nat.add_assoc] at hrest
  exact ⟨fun s hs => h.coded s (List.mem_cons_of_mem t hs), fun s hs => h.sized s (List.mem_cons_of_mem t hs), hrest⟩

theorem holds_of_mem (h : Contiguous symbols first b) (hs : s ∈ b) :
    (Memory.Segment.mk first ((b.map (Statement.code symbols)).flatMap ObjectCode.bytes)).Holds
      ⟨s.location, (s.code symbols).bytes⟩ := by
  induction b generalizing first with
  | nil => cases hs
  | cons t rest ih =>
    rcases List.mem_cons.mp hs with rfl | hs
    · exact ⟨[], _, rfl, h.location_eq⟩
    · obtain ⟨front, back, hbytes, haddress⟩ := ih h.tail hs
      refine ⟨(t.code symbols).bytes ++ front, back, ?_, ?_⟩
      · dsimp only at hbytes ⊢
        rw [List.map_cons, List.flatMap_cons, hbytes]
        simp only [List.append_assoc]
      · dsimp only at haddress ⊢
        rw [haddress, List.length_append, Statement.length_of_coded (h.coded t (List.mem_cons_self ..)), Nat.add_assoc]

theorem exists_mem_of_lt (h : Contiguous symbols first b) {x : Nat} (hfirst : first ≤ x) (hx : x < first + totalSize b) :
    ∃ s ∈ b, s.location ≤ x ∧ x < s.location + s.size := by
  induction b generalizing first with
  | nil => exact absurd hx (Nat.not_lt.mpr hfirst)
  | cons t rest ih =>
    have hlocation := h.location_eq
    by_cases ht : x < t.location + t.size
    · exact ⟨t, List.mem_cons_self .., by omega, ht⟩
    · rw [totalSize] at hx
      obtain ⟨s, hs, hsx⟩ := ih h.tail (by omega) (by omega)
      exact ⟨s, List.mem_cons_of_mem t hs, hsx⟩

end Contiguous

/-! ### Programs -/

/-- How the text records `texts` and the fixups at `fixups` stand to the statements of a program. -/
structure ObjectProgram (symbols : SymbolTable) (start length : Nat) (body : List Statement)
    (texts : List Memory.Segment) (fixups : List Nat) : Prop where
  filled : ∀ t ∈ texts, 1 ≤ t.bytes.length ∧ t.bytes.length ≤ Record.payloadLimit
  ascending : texts.Pairwise fun t u => t.address < u.address
  disjoint : texts.Pairwise Memory.Segment.Apart
  inside : ∀ t ∈ texts, start ≤ t.address ∧ t.address + t.bytes.length ≤ start + length
  /-- A byte is in a text record exactly where it is object code. -/
  covered : ∀ x, (∃ t ∈ texts, t.Covers x) ↔
    ∃ s ∈ body, s.operation.isCode ∧ s.location ≤ x ∧ x < s.location + s.size
  /-- The object code of each statement stands at its location. -/
  held : ∀ s ∈ body, s.operation.isCode →
    ∃ c, s.objectCode symbols = .ok c ∧ ∃ t ∈ texts, t.Holds ⟨s.location, c.bytes⟩
  relocated : fixups = (body.filter Statement.isSymbolic).map fun s => s.location + 1
  spaced : fixups.Pairwise fun a b => a + 3 ≤ b
  patched : ∀ a ∈ fixups, ∃! t, t ∈ texts ∧ t.address ≤ a ∧ a + 2 ≤ t.address + t.bytes.length

namespace Assembled

variable {text : String} {l : Layout} {o : Outline} {entry : Nat} (h : Assembled text l o entry)
include h

theorem mem_body {b : List Statement} (hb : b ∈ blocks o.body) {s : Statement} (hs : s ∈ b) : s ∈ o.body :=
  (mem_blocks h.coded hb hs).1

theorem contiguous {b : List Statement} (hb : b ∈ blocks o.body) : Contiguous l.symbols (blockStart b) b := by
  have hsized : ∀ s ∈ b, s.following = s.location + s.size := fun s hs => h.outlined.sized (h.mem_body hb hs)
  obtain ⟨stop, hconsecutive⟩ := consecutive_block h.outlined.consecutive hb
  have hstop := hconsecutive.stop_eq hsized
  exact ⟨fun s hs => (mem_blocks h.coded hb hs).2, hsized, hstop ▸ hconsecutive⟩

theorem length_blockSegment {b : List Statement} (hb : b ∈ blocks o.body) :
    (blockSegment l.symbols b).bytes.length = totalSize b :=
  length_flatMap_code (h.contiguous hb).coded

theorem exists_end {b : List Statement} (hb : b ∈ blocks o.body) :
    ∃ s ∈ b, s.location + s.size = (blockSegment l.symbols b).address + (blockSegment l.symbols b).bytes.length := by
  have hcontiguous := h.contiguous hb
  obtain ⟨s, hs, hend⟩ := hcontiguous.consecutive.exists_last (blocks_ne_nil hb)
  rw [h.length_blockSegment hb]
  exact ⟨s, hs, (hcontiguous.sized s hs).symm.trans hend⟩

theorem filled_block {b : List Statement} (hb : b ∈ blocks o.body) :
    1 ≤ (blockSegment l.symbols b).bytes.length ∧ (blockSegment l.symbols b).bytes.length ≤ Record.payloadLimit := by
  rw [h.length_blockSegment hb]
  refine ⟨?_, totalSize_block (fun s hs hcode => ((h.outlined.wellFormed hs).size_bounds hcode).2) hb⟩
  obtain ⟨s, rest, rfl⟩ := List.exists_cons_of_ne_nil (blocks_ne_nil hb)
  have hs := List.mem_cons_self (a := s) (l := rest)
  have hcode := Statement.hasCode_of_coded ((h.contiguous hb).coded s hs)
  have hsize := ((h.outlined.wellFormed (h.mem_body hb hs)).size_bounds hcode).1
  rw [totalSize]
  omega

/-- Each block ends before the later ones begin. -/
theorem blocks_ordered : (blocks o.body).Pairwise fun b c =>
    (blockSegment l.symbols b).address + (blockSegment l.symbols b).bytes.length ≤
      (blockSegment l.symbols c).address := by
  have hapart := h.outlined.pairwise_filter Statement.hasCode
  rw [← flatten_blocks] at hapart
  refine (List.pairwise_flatten.mp hapart).2.imp_of_mem ?_
  intro b c hb hc hbefore
  obtain ⟨s, hs, hend⟩ := h.exists_end hb
  obtain ⟨t, ht, hstart⟩ := exists_location_eq_blockStart hc
  rw [← hend, blockSegment, ← hstart]
  exact hbefore s hs t ht

/-- Object code is part of a block. -/
theorem exists_block {s : Statement} (hs : s ∈ o.body) (hcode : s.hasCode) :
    ∃ b ∈ blocks o.body, (blockSegment l.symbols b).Holds ⟨s.location, (s.code l.symbols).bytes⟩ := by
  have hmem : s ∈ (blocks o.body).flatten := by
    rw [flatten_blocks]
    exact List.mem_filter.mpr ⟨hs, hcode⟩
  obtain ⟨b, hb, hs⟩ := List.mem_flatten.mp hmem
  exact ⟨b, hb, (h.contiguous hb).holds_of_mem hs⟩

theorem disjoint_blocks : ((blocks o.body).map (blockSegment l.symbols)).Pairwise Memory.Segment.Apart :=
  List.pairwise_map.mpr (h.blocks_ordered.imp .inl)

theorem covered_iff (x : Nat) : (∃ t ∈ (blocks o.body).map (blockSegment l.symbols), t.Covers x) ↔
    ∃ s ∈ o.body, s.operation.isCode ∧ s.location ≤ x ∧ x < s.location + s.size := by
  constructor
  · intro hx
    obtain ⟨t, ht, hstart, hend⟩ := hx
    obtain ⟨b, hb, rfl⟩ := List.mem_map.mp ht
    rw [h.length_blockSegment hb] at hend
    obtain ⟨s, hs, hx⟩ := (h.contiguous hb).exists_mem_of_lt hstart hend
    have hbody := h.mem_body hb hs
    have hcode := Statement.hasCode_of_coded ((h.contiguous hb).coded s hs)
    rw [(h.outlined.wellFormed hbody).hasCode_eq] at hcode
    exact ⟨s, hbody, hcode, hx⟩
  · intro hx
    obtain ⟨s, hs, hcode, hx⟩ := hx
    rw [← (h.outlined.wellFormed hs).hasCode_eq] at hcode
    obtain ⟨b, hb, hholds⟩ := h.exists_block hs hcode
    have hbounds := hholds.bounds
    dsimp only at hbounds
    rw [Statement.length_of_coded (h.coded s hs hcode)] at hbounds
    exact ⟨_, List.mem_map_of_mem hb, by omega, by omega⟩

/-- The field of a symbolic address lies in one block only. -/
theorem patched_block {s : Statement} (hs : s ∈ o.body) (hsymbolic : s.isSymbolic) :
    ∃! t, t ∈ (blocks o.body).map (blockSegment l.symbols) ∧
      t.address ≤ s.location + 1 ∧ s.location + 1 + 2 ≤ t.address + t.bytes.length := by
  have hcode := Statement.hasCode_of_isSymbolic hsymbolic
  obtain ⟨b, hb, hholds⟩ := h.exists_block hs hcode
  have hbounds := hholds.bounds
  dsimp only at hbounds
  rw [Statement.length_of_coded (h.coded s hs hcode), Statement.size_of_isSymbolic hsymbolic, Instruction.size] at hbounds
  refine ⟨blockSegment l.symbols b, ⟨List.mem_map_of_mem hb, by omega, by omega⟩, ?_⟩
  intro t ht
  obtain ⟨hmem, hstart, hend⟩ := ht
  by_contra hne
  have hapart : t.Apart (blockSegment l.symbols b) := h.disjoint_blocks.forall hmem (List.mem_map_of_mem hb) hne
  unfold Memory.Segment.Apart at hapart
  omega

theorem objectProgram : ObjectProgram l.symbols o.start l.length o.body
    ((blocks o.body).map (blockSegment l.symbols))
    ((o.body.filter Statement.isSymbolic).map fun s => s.location + 1) := by
  constructor
  case filled =>
    intro t ht
    obtain ⟨b, hb, rfl⟩ := List.mem_map.mp ht
    exact h.filled_block hb
  case ascending =>
    refine List.pairwise_map.mpr (h.blocks_ordered.imp_of_mem ?_)
    intro b c hb _ hbefore
    have := (h.filled_block hb).1
    omega
  case disjoint => exact h.disjoint_blocks
  case inside =>
    intro t ht
    obtain ⟨b, hb, rfl⟩ := List.mem_map.mp ht
    obtain ⟨s, hs, hend⟩ := h.exists_end hb
    obtain ⟨u, hu, hstart⟩ := exists_location_eq_blockStart hb
    rw [← hend, blockSegment, ← hstart]
    exact ⟨(h.outlined.mem_range (h.mem_body hb hu)).1, (h.outlined.mem_range (h.mem_body hb hs)).2⟩
  case covered => exact h.covered_iff
  case held =>
    intro s hs hcode
    rw [← (h.outlined.wellFormed hs).hasCode_eq] at hcode
    obtain ⟨b, hb, hholds⟩ := h.exists_block hs hcode
    exact ⟨_, Statement.objectCode_eq_ok_iff.mpr (h.coded s hs hcode), _, List.mem_map_of_mem hb, hholds⟩
  case relocated => rfl
  case spaced =>
    refine List.pairwise_map.mpr ((h.outlined.pairwise_filter _).imp_of_mem ?_)
    intro s t hs _ hbefore
    rw [Statement.size_of_isSymbolic (List.mem_filter.mp hs).2, Instruction.size] at hbefore
    omega
  case patched =>
    intro a ha
    obtain ⟨s, hs, rfl⟩ := List.mem_map.mp ha
    obtain ⟨hs, hsymbolic⟩ := List.mem_filter.mp hs
    exact h.patched_block hs hsymbolic

end Assembled

/-- The records of a source text are a header, text records, modification records and an end record, in this order,
and they are a well-formed object program. -/
theorem object_program_wellFormed {text : String} {records : List Record} (h : assemble text = .ok records) :
    ∃ layout outline entry texts fixups,
      Layout.ofLines (sourceLines text) = .ok layout ∧
      Outline.ofStatements layout.statements.toList = .ok outline ∧
      records = .header outline.name outline.start layout.length ::
        (texts.map (fun t => .text t.address t.bytes) ++ fixups.map (fun a => .modification a 2) ++ [.finish entry]) ∧
      ObjectProgram layout.symbols outline.start layout.length outline.body texts fixups := by
  obtain ⟨layout, outline, entry, hassembled, rfl⟩ := assemble_eq_ok_iff.mp h
  refine ⟨layout, outline, entry, _, _, hassembled.layout, hassembled.outline, ?_, hassembled.objectProgram⟩
  rw [Layout.programRecords, fixupRecords_code hassembled.coded, List.map_map, List.map_map]
  rfl

/-- An empty reservation still ends a text record. -/
theorem empty_reservation_wellFormed :
    ∃ layout outline entry texts fixups,
      Layout.ofLines (sourceLines "P START 0010\n LDA N,X\nR RESB 0\n NOP\nN WORD 1\n END\n") = .ok layout ∧
      Outline.ofStatements layout.statements.toList = .ok outline ∧
      [.header "P" 16 9, .text 16 [0, 22, 128], .text 19 [23, 0, 0, 1, 0, 0], .modification 17 2, .finish 0] =
        Record.header outline.name outline.start layout.length ::
          (texts.map (fun t => .text t.address t.bytes) ++ fixups.map (fun a => .modification a 2) ++ [.finish entry]) ∧
      ObjectProgram layout.symbols outline.start layout.length outline.body texts fixups := by
  have hassemble : assemble "P START 0010\n LDA N,X\nR RESB 0\n NOP\nN WORD 1\n END\n" =
      .ok [.header "P" 16 9, .text 16 [0, 22, 128], .text 19 [23, 0, 0, 1, 0, 0], .modification 17 2, .finish 0] := by
    decide +kernel
  exact object_program_wellFormed hassemble

/-- The records of a source text can always be written, and the file gives them back with no byte left over. -/
theorem object_file_exact {text : String} {records : List Record} (h : assemble text = .ok records) :
    ∃ image, encodeImage records = .ok image ∧ decodeImage image = records ∧
      (Reader.ofImage image).last.offset = image.length ∧ ObjectFile.ofImage image = ⟨records, 0⟩ := by
  obtain ⟨layout, outline, entry, hassembled, rfl⟩ := assemble_eq_ok_iff.mp h
  obtain ⟨image, hencode, hdecode⟩ := hassembled.image
  obtain ⟨hfits, rfl⟩ := encodeImage_eq_ok_iff.mp hencode
  have hlast := last_flatMap_wire hfits 0
  refine ⟨_, hencode, hdecode, ?_, ?_⟩
  · rw [Reader.ofImage, hlast, Nat.zero_add]
  · rw [ObjectFile.ofImage, Reader.ofImage, hlast]
    exact congrArg (ObjectFile.mk · 0) hdecode

/-- A name that fills its field, and a program that ends with the address space. -/
theorem full_program_file_exact :
    assemble "ABCDEF START FFFC\n RESB 16711680\nL J ABCDEF\n END L\n" =
      .ok [.header "ABCDEF" 0xFFFC 0xFF0003, .text 0xFFFFFC [0x0E, 0, 0], .modification 0xFFFFFD 2,
        .finish 0xFFFFFC] ∧
    ∃ image, encodeImage [.header "ABCDEF" 0xFFFC 0xFF0003, .text 0xFFFFFC [0x0E, 0, 0],
        .modification 0xFFFFFD 2, .finish 0xFFFFFC] = .ok image ∧
      (Reader.ofImage image).last.offset = image.length := by
  have hassemble : assemble "ABCDEF START FFFC\n RESB 16711680\nL J ABCDEF\n END L\n" =
      .ok [.header "ABCDEF" 0xFFFC 0xFF0003, .text 0xFFFFFC [0x0E, 0, 0], .modification 0xFFFFFD 2,
        .finish 0xFFFFFC] := by
    decide +kernel
  obtain ⟨image, hencode, -, hoffset, -⟩ := object_file_exact hassemble
  exact ⟨hassemble, image, hencode, hoffset⟩

end Tribyte
