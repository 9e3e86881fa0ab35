import Mathlib.Data.List.Forall2
import Tribyte.Proofs.Assembly.ObjectProgram
import Tribyte.Proofs.Object.Disassembly

/-! The listing of an assembled program.

Where a program holds instructions and reservations only, its text records are instructions one behind the other. A
disassembly then stays in step with the statements, block by block (`Contiguous.listed`), and finds a relocated address
in exactly those that have a symbol (`Assembled.marked_iff`). So the listing of the object file reads as the source does
(`disassembly_inverts_assembly`). -/
namespace Tribyte

open Text

/-! ### Statements as instructions -/

def Operation.isOpcode : Operation → Bool
  | .opcode _ => true
  | .directive _ => false

/-- The instruction that a statement stands for: its address is that of its symbol, or zero without one. -/
inductive Statement.Denotes (symbols : SymbolTable) (s : Statement) : Instruction → Prop
  | plain {op : Opcode} {indexed : Bool} (hoperation : s.operation = .opcode op)
      (hpayload : s.payload = .instruction none indexed) : Denotes symbols s ⟨op, indexed, 0⟩
  | symbolic {op : Opcode} {name : String} {indexed : Bool} {address : Nat} (hoperation : s.operation = .opcode op)
      (hpayload : s.payload = .instruction (some name) indexed) (haddress : symbols.address? name = some address) :
      Denotes symbols s ⟨op, indexed, address⟩

/-- Six hexadecimal digits in upper case that spell an address. -/
structure IsAddress (digits : String) (address : Nat) : Prop where
  spells : Numeral.Spells 16 digits.toList address
  length : digits.toList.length = 6
  upper : ∀ c ∈ digits.toList, c.isLower = false

/-- The line of a statement in a listing, behind the digits of its location. A star marks a symbolic address. -/
def Statement.listingLine (digits : String) (showBytes : Bool) (s : Statement) (i : Instruction) : String :=
  let bytes := if showBytes then " " ++ Column.left 9 (Hexadecimal.bytes " " i.encode) else ""
  digits ++ ":" ++ bytes ++ (if s.isSymbolic then "*" else " ") ++ " " ++ i.text

theorem isAddress_upper {address : Nat} (h : address ≤ Word.greatest) :
    IsAddress (Hexadecimal.upper 6 address) address := by
  have hspells : Numeral.Spells 16 ((Nat.toDigits 16 address).leftpad 6 '0') address :=
    (Numeral.spells_toDigits (by decide) (by decide) address).replicate_append (by decide) _
  have htoList : (Hexadecimal.upper 6 address).toList = ((Nat.toDigits 16 address).leftpad 6 '0').map Char.toUpper :=
    String.toList_ofList
  refine ⟨?_, ?_, ?_⟩
  · rw [htoList]
    exact hspells.toUpper (by decide)
  · have hdigits : (Nat.toDigits 16 address).length ≤ 6 :=
      (Nat.length_toDigits_le_iff (by decide) (by decide)).mpr (Nat.lt_of_le_of_lt h (by decide))
    rw [htoList, List.length_map, List.length_leftpad, Nat.max_eq_left hdigits]
  · intro c hc
    rw [htoList] at hc
    obtain ⟨d, hd, rfl⟩ := List.mem_map.mp hc
    exact (Numeral.worth_toUpper (hspells.digits d hd)).2

theorem Statement.size_of_isOpcode {s : Statement} (hs : s.WellFormed) (h : s.operation.isOpcode) :
    s.size = Instruction.size := by
  unfold Operation.isOpcode at h
  split at h
  · rename_i op hoperation
    have hsuits := hs.suits
    rw [hoperation] at hsuits
    obtain ⟨symbol, indexed, hpayload, -⟩ := hsuits.opcode
    exact size_of_instruction hpayload
  · cases h

/-- The object code of an opcode statement is its instruction. -/
theorem Statement.denotes_of_coded {symbols : SymbolTable} {s : Statement} {c : ObjectCode} (hs : s.WellFormed)
    (h : Coded symbols s c) (hopcode : s.operation.isOpcode) :
    ∃ i, s.Denotes symbols i ∧ c.bytes = i.encode ∧ i.address ≤ Instruction.greatestAddress := by
  have hoperand {payload : Payload} (hpayload : s.payload = payload) : payload.Suits s.operation := hpayload ▸ hs.suits
  cases h with
  | plain hoperation hpayload => exact ⟨_, .plain hoperation hpayload, rfl, Nat.zero_le _⟩
  | symbolic hoperation hpayload haddress hbound =>
    exact ⟨_, .symbolic hoperation hpayload haddress, rfl, hbound⟩
  | word hpayload | bytes hpayload =>
    have hsuits := hoperand hpayload
    unfold Operation.isOpcode at hopcode
    split at hopcode
    · rename_i hoperation
      rw [hoperation] at hsuits
      exact hsuits.elim
    · cases hopcode

/-! ### Blocks -/

theorem disassemble_encode {i : Instruction} (h : i.address ≤ Instruction.greatestAddress) (address : Nat)
    (rest : List UInt8) :
    disassemble address (i.encode ++ rest) =
      ⟨address, i.encode, i.text⟩ :: disassemble (address + Instruction.size) rest := by
  have hdecode := Instruction.decode?_pack i.opcode h i.indexed []
  obtain ⟨low, high, hencode⟩ : ∃ low high, i.encode = [i.opcode.code, low, high] := ⟨_, _, rfl⟩
  rw [List.append_nil, ← Instruction.encode, hencode] at hdecode
  rw [hencode, List.cons_append, List.cons_append, List.cons_append, List.nil_append, disassemble, hdecode]
  rfl

/-- A line of a disassembly shows the instruction of a statement where it stands. -/
def Statement.Shown (symbols : SymbolTable) (s : Statement) (line : CodeLine) : Prop :=
  ∃ i, s.Denotes symbols i ∧ line = ⟨s.location, i.encode, i.text⟩

theorem Contiguous.listed {symbols : SymbolTable} {first : Nat} {b : List Statement} (h : Contiguous symbols first b)
    (hwf : ∀ s ∈ b, s.WellFormed) (hopcode : ∀ s ∈ b, s.operation.isOpcode) :
    List.Forall₂ (Statement.Shown symbols) b
      (disassemble first ((b.map (Statement.code symbols)).flatMap ObjectCode.bytes)) := by
  induction b generalizing first with
  | nil => exact .nil
  | cons s rest ih =>
    have hs := List.mem_cons_self (a := s) (l := rest)
    obtain ⟨i, hdenotes, hbytes, hbound⟩ := Statement.denotes_of_coded (hwf s hs) (h.coded s hs) (hopcode s hs)
    have hrest := ih h.tail (fun t ht => hwf t (List.mem_cons_of_mem s ht))
      fun t ht => hopcode t (List.mem_cons_of_mem s ht)
    rw [Statement.size_of_isOpcode (hwf s hs) (hopcode s hs)] at hrest
    rw [List.map_cons, List.flatMap_cons, hbytes, disassemble_encode hbound]
    exact .cons ⟨i, hdenotes, by rw [h.location_eq]⟩ hrest

theorem forall₂_flatten {α β : Type} {R : α → β → Prop} {f : List α → List β} {bs : List (List α)}
    (h : ∀ b ∈ bs, List.Forall₂ R b (f b)) : List.Forall₂ R bs.flatten (bs.flatMap f) := by
  induction bs with
  | nil => exact .nil
  | cons b rest ih =>
    rw [List.flatten_cons, List.flatMap_cons]
    exact List.rel_append (h b (List.mem_cons_self ..)) (ih fun c hc => h c (List.mem_cons_of_mem b hc))

/-! ### Programs -/

/-- Between START and END there are opcodes and reservations only. -/
def Outline.IsCode (o : Outline) : Prop :=
  ∀ s ∈ o.body, s.operation.isOpcode ∨ s.operation = .directive .reserveBytes ∨ s.operation = .directive .reserveWords

instance (o : Outline) : Decidable o.IsCode :=
  inferInstanceAs (Decidable (∀ s ∈ o.body, s.operation.isOpcode ∨ s.operation = .directive .reserveBytes ∨
    s.operation = .directive .reserveWords))

namespace Assembled

variable {text : String} {l : Layout} {o : Outline} {entry : Nat} (h : Assembled text l o entry) {file : ObjectFile}
  (hrecords : file.records = l.programRecords o entry)
include h hrecords

theorem code_eq : file.code = (blocks o.body).flatMap fun b =>
    disassemble (blockStart b) ((b.map (Statement.code l.symbols)).flatMap ObjectCode.bytes) := by
  rw [ObjectFile.code, hrecords, Layout.programRecords, fixupRecords_code h.coded]
  simp [List.flatMap_append, List.flatMap_map, textRecord]

theorem relocations_eq : file.relocations = (o.body.filter Statement.isSymbolic).map fun s => s.location + 1 := by
  rw [ObjectFile.relocations, hrecords, Layout.programRecords, fixupRecords_code h.coded]
  simp [List.filterMap_append, List.filterMap_map, textRecord]

/-- An instruction is marked where it has a symbol: no other statement stands at its address. -/
theorem marked_iff {s : Statement} (hs : s ∈ o.body) (hopcode : s.operation.isOpcode) :
    file.relocations.contains (s.location + 1) ↔ s.isSymbolic := by
  rw [h.relocations_eq hrecords, List.contains_iff_mem, List.mem_map]
  constructor
  · intro hfixup
    obtain ⟨t, ht, hlocation⟩ := hfixup
    obtain ⟨ht, hsymbolic⟩ := List.mem_filter.mp ht
    have hsize := Statement.size_of_isOpcode (h.outlined.wellFormed hs) hopcode
    have hsize' := Statement.size_of_isSymbolic hsymbolic
    rcases h.outlined.apart hs ht with rfl | hapart
    · exact hsymbolic
    · rw [hsize, hsize', Instruction.size] at hapart
      omega
  · intro hsymbolic
    exact ⟨s, List.mem_filter.mpr ⟨hs, hsymbolic⟩, rfl⟩

end Assembled

theorem Outline.IsCode.filter_eq {l : Layout} {o : Outline} (hcode : o.IsCode) (h : l.Outlined o) :
    o.body.filter Statement.hasCode = o.body.filter (·.operation.isOpcode) := by
  refine List.filter_congr fun s hs => ?_
  rw [(h.wellFormed hs).hasCode_eq]
  rcases hcode s hs with hopcode | hreserve | hreserve
  · unfold Operation.isOpcode at hopcode ⊢
    split at hopcode
    · rename_i hoperation
      rw [hoperation]
      rfl
    · cases hopcode
  · rw [hreserve]
    rfl
  · rw [hreserve]
    rfl

/-- The code of the object file shows the opcode statements one by one. -/
theorem Assembled.shown {text : String} {l : Layout} {o : Outline} {entry : Nat} (h : Assembled text l o entry)
    {file : ObjectFile} (hrecords : file.records = l.programRecords o entry) (hcode : o.IsCode) :
    List.Forall₂ (Statement.Shown l.symbols) (o.body.filter (·.operation.isOpcode)) file.code := by
  rw [h.code_eq hrecords, ← hcode.filter_eq h.outlined, ← flatten_blocks]
  refine forall₂_flatten fun b hb => (h.contiguous hb).listed ?_ ?_
  · intro s hs
    exact h.outlined.wellFormed (h.mem_body hb hs)
  · intro s hs
    have hmem := mem_filter_of_mem_blocks hb hs
    rw [hcode.filter_eq h.outlined] at hmem
    exact (List.mem_filter.mp hmem).2

/-- The listing of an assembled program of opcodes and reservations has one line for each opcode statement, in order:
the digits of its location, its instruction with the address of its symbol, and a star where it has one. -/
theorem disassembly_inverts_assembly {text : String} {records : List Record} {layout : Layout} {outline : Outline}
    (h : assemble text = .ok records) (hlayout : Layout.ofLines (sourceLines text) = .ok layout)
    (houtline : Outline.ofStatements layout.statements.toList = .ok outline) (hcode : outline.IsCode) :
    ∃ image, encodeImage records = .ok image ∧ ∀ showBytes,
      List.Forall₂ (fun s line => ∃ i digits, s.Denotes layout.symbols i ∧ IsAddress digits s.location ∧
          line = s.listingLine digits showBytes i)
        (outline.body.filter (·.operation.isOpcode)) ((ObjectFile.ofImage image).codeLines showBytes) := by
  obtain ⟨entry, hassembled, rfl⟩ := Assembled.of_assemble h hlayout houtline
  obtain ⟨image, hencode, hdecode⟩ := hassembled.image
  have hrecords : (ObjectFile.ofImage image).records = layout.programRecords outline entry := hdecode
  refine ⟨image, hencode, fun showBytes => ?_⟩
  have hstatement : ∀ s ∈ outline.body.filter (·.operation.isOpcode), s.location ≤ Word.greatest ∧
      ((ObjectFile.ofImage image).relocations.contains (s.location + 1) ↔ s.isSymbolic) := by
    intro s hs
    obtain ⟨hs, hopcode⟩ := List.mem_filter.mp hs
    have hrange := hassembled.outlined.mem_range hs
    have hbounded := hassembled.outlined.bounded
    exact ⟨by omega, hassembled.marked_iff hrecords hs hopcode⟩
  rw [ObjectFile.codeLines, List.forall₂_map_right_iff]
  refine (List.forall₂_and_left _ _ |>.mpr ⟨hstatement, hassembled.shown hrecords hcode⟩).imp ?_
  rintro s line ⟨⟨hlocation, hmark⟩, i, hdenotes, rfl⟩
  refine ⟨i, _, hdenotes, isAddress_upper hlocation, ?_⟩
  rw [ObjectFile.codeLine, Statement.listingLine]
  simp only [hmark]

/-- The image of a program whose code is divided into two records by reserved space. -/
def dividedImage : List UInt8 :=
  [0, 80, 0, 0, 0, 0, 0, 16, 0, 0, 13, 0, 0, 1, 16, 0, 0, 3, 0, 23, 128, 1, 23, 0, 0, 6, 21, 0, 0, 20, 0, 0,
    3, 17, 0, 0, 2, 2, 0, 0, 0]

/-- Only the first of its three instructions is marked, and the others stand behind the space. -/
theorem divided_code_listed :
    assemble "P START 0010\n LDA N,X\nR RESB 4\nN WD\n RD\n END\n" =
      .ok [.header "P" 16 13, .text 16 [0, 23, 128], .text 23 [21, 0, 0, 20, 0, 0], .modification 17 2, .finish 0] ∧
    ∃ layout outline,
      Layout.ofLines (sourceLines "P START 0010\n LDA N,X\nR RESB 4\nN WD\n RD\n END\n") = .ok layout ∧
      Outline.ofStatements layout.statements.toList = .ok outline ∧ outline.IsCode ∧
      (outline.body.filter (·.operation.isOpcode)).map Statement.location = [0x10, 0x17, 0x1A] ∧
      (outline.body.filter (·.operation.isOpcode)).map Statement.isSymbolic = [true, false, false] ∧
      encodeImage [.header "P" 16 13, .text 16 [0, 23, 128], .text 23 [21, 0, 0, 20, 0, 0], .modification 17 2,
        .finish 0] = .ok dividedImage ∧
      (ObjectFile.ofImage dividedImage).codeLines true =
        ["000010: 00 17 80 * LDA   0x0017,X", "000017: 15 00 00   WD", "00001A: 14 00 00   RD"] ∧
      (ObjectFile.ofImage dividedImage).codeLines false = ["000010:* LDA   0x0017,X", "000017:  WD", "00001A:  RD"] ∧
      List.Forall₂ (fun s line => ∃ i digits, s.Denotes layout.symbols i ∧ IsAddress digits s.location ∧
          line = s.listingLine digits true i)
        (outline.body.filter (·.operation.isOpcode)) ((ObjectFile.ofImage dividedImage).codeLines true) := by
  have hassemble : assemble "P START 0010\n LDA N,X\nR RESB 4\nN WD\n RD\n END\n" =
      .ok [.header "P" 16 13, .text 16 [0, 23, 128], .text 23 [21, 0, 0, 20, 0, 0], .modification 17 2, .finish 0] := by
    decide +kernel
  have hlaidOut : laidOut "P START 0010\n LDA N,X\nR RESB 4\nN WD\n RD\n END\n" fun _ o => o.IsCode ∧
      (o.body.filter (·.operation.isOpcode)).map Statement.location = [0x10, 0x17, 0x1A] ∧
      (o.body.filter (·.operation.isOpcode)).map Statement.isSymbolic = [true, false, false] := by
    decide +kernel
  obtain ⟨layout, outline, hlayout, houtline, hcheck⟩ := exists_of_laidOut hlaidOut
  obtain ⟨hcode, hlocations, hsymbolic⟩ := of_decide_eq_true hcheck
  obtain ⟨image, hencode, hlisted⟩ := disassembly_inverts_assembly hassemble hlayout houtline hcode
  obtain rfl : image = dividedImage := Except.ok.inj (hencode.symm.trans (by decide +kernel))
  exact ⟨hassemble, layout, outline, hlayout, houtline, hcode, hlocations, hsymbolic, hencode, by decide +kernel,
    by decide +kernel, hlisted true⟩

end Tribyte
