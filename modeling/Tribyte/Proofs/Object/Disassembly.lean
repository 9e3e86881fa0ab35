import Tribyte.Object.Listing
import Tribyte.Proofs.Text.Numerals

/-! Disassembly loses nothing.

A payload is taken apart from the front, three bytes where they are an instruction and one byte elsewhere
(`CodeLine.Takes`), so the lines hold all of it in order (`Swept`). Instructions with different texts are different, and
no instruction looks like a single byte, so the texts alone determine the payload too (`disassembly_lossless`). -/
namespace Tribyte

open Text

/-! ### Texts in parts -/

theorem Text.Hexadecimal.spells_lower (width n : Nat) : Numeral.Spells 16 (lower width n).toList n := by
  rw [lower, String.toList_ofList]
  exact (Numeral.spells_toDigits (by decide) (by decide) n).replicate_append (by decide) _

theorem Text.Hexadecimal.lower_inj {width m n : Nat} (h : (lower width m).toList = (lower width n).toList) : m = n := by
  have hm := (spells_lower width m).value
  rw [h] at hm
  exact hm.symm.trans (spells_lower width n).value

theorem Text.Hexadecimal.comma_notMem_lower (width n : Nat) : ',' ∉ (lower width n).toList := by
  intro h
  exact absurd ((spells_lower width n).digits ',' h) (by decide)

theorem takeWhile_append_of_mark {mark : Char} {a x : List Char} (ha : mark ∉ a) (hx : ∀ c ∈ x.head?, c = mark) :
    (a ++ x).takeWhile (· != mark) = a := by
  have hpass : ∀ c ∈ a, (c != mark) = true := fun c hc => bne_iff_ne.mpr (ne_of_mem_of_not_mem hc ha)
  have hstop : x.takeWhile (· != mark) = [] := by
    cases x with
    | nil => rfl
    | cons c rest => simp [hx c rfl]
  rw [List.takeWhile_append_of_pos hpass, hstop, List.append_nil]

/-- A text is divided where a mark first stands in it, in one way only. -/
theorem append_inj_of_mark {mark : Char} {a b x y : List Char} (ha : mark ∉ a) (hb : mark ∉ b)
    (hx : ∀ c ∈ x.head?, c = mark) (hy : ∀ c ∈ y.head?, c = mark) (h : a ++ x = b ++ y) : a = b ∧ x = y := by
  have hab : a = b := by
    rw [← takeWhile_append_of_mark ha hx, h, takeWhile_append_of_mark hb hy]
  subst hab
  exact ⟨rfl, List.append_cancel_left h⟩

/-! ### Texts of instructions -/

theorem Opcode.blank_notMem_mnemonic (op : Opcode) : ' ' ∉ op.mnemonic.toList := by
  cases op <;> decide

theorem Opcode.mnemonic_ne_byte (op : Opcode) : op.mnemonic ≠ "BYTE" := by
  cases op <;> decide

theorem Opcode.mnemonic_inj {op op' : Opcode} (h : op.mnemonic = op'.mnemonic) : op = op' := by
  have hfound := ofMnemonic?_mnemonic op
  rw [h, ofMnemonic?_mnemonic] at hfound
  exact (Option.some.inj hfound).symm

namespace Instruction

/-- What stands behind the address. -/
def indexText (i : Instruction) : List Char := if i.indexed then [',', 'X'] else []

/-- What stands behind the mnemonic: nothing, or blanks up to the address. -/
def operandText (i : Instruction) : List Char :=
  if !i.opcode.needsOperand && i.address == 0 && !i.indexed then []
  else
    List.replicate (5 - i.opcode.mnemonic.toList.length) ' ' ++ [' ', '0', 'x']
      ++ ((Hexadecimal.lower 4 i.address).toList ++ i.indexText)

theorem toList_text (i : Instruction) : i.text.toList = i.opcode.mnemonic.toList ++ i.operandText := by
  have hmark : " ".toList = [' '] ∧ "0x".toList = ['0', 'x'] ∧ ",X".toList = [',', 'X'] ∧ "".toList = [] := by decide
  obtain ⟨hblank, hzero, hcomma, hempty⟩ := hmark
  unfold text operandText
  split
  · rw [List.append_nil]
  · have hindex : (if i.indexed then ",X" else "").toList = i.indexText := by
      unfold indexText
      split
      · exact hcomma
      · exact hempty
    simp only [Column.left, Hexadecimal.marked, String.toList_append, String.toList_ofList, hblank, hzero, hindex,
      List.rightpad, List.append_assoc]
    rfl

theorem head?_operandText (i : Instruction) : ∀ c ∈ i.operandText.head?, c = ' ' := by
  unfold operandText
  split
  · simp
  · generalize 5 - i.opcode.mnemonic.toList.length = gap
    cases gap <;> simp [List.replicate_succ]

theorem head?_indexText (i : Instruction) : ∀ c ∈ i.indexText.head?, c = ',' := by
  unfold indexText
  split
  · simp
  · simp

/-- The text of an instruction says all of it. -/
theorem text_inj {i j : Instruction} (h : i.text = j.text) : i = j := by
  have hlist : i.opcode.mnemonic.toList ++ i.operandText = j.opcode.mnemonic.toList ++ j.operandText := by
    rw [← toList_text, ← toList_text, h]
  obtain ⟨hmnemonic, hoperand⟩ := append_inj_of_mark i.opcode.blank_notMem_mnemonic j.opcode.blank_notMem_mnemonic
    i.head?_operandText j.head?_operandText hlist
  have hopcode : i.opcode = j.opcode := Opcode.mnemonic_inj (String.toList_injective hmnemonic)
  obtain ⟨op, indexed, address⟩ := i
  obtain ⟨op', indexed', address'⟩ := j
  cases hopcode
  unfold operandText at hoperand
  split at hoperand
  · split at hoperand
    · simp_all
    · simp at hoperand
  · split at hoperand
    · simp at hoperand
    · -- The digits of the address end at the comma, or where the text does.
      have hdigits := List.append_cancel_left hoperand
      obtain ⟨haddress, hindex⟩ := append_inj_of_mark (Hexadecimal.comma_notMem_lower _ _)
        (Hexadecimal.comma_notMem_lower _ _) (head?_indexText _) (head?_indexText _) hdigits
      cases Hexadecimal.lower_inj haddress
      cases indexed <;> cases indexed' <;> simp_all [indexText]

theorem encode_of_decode? {code low high : UInt8} {i : Instruction} (h : decode? [code, low, high] = some i) :
    i.encode = [code, low, high] := by
  obtain ⟨op, hop, rfl⟩ := Option.map_eq_some_iff.mp h
  have hfield : LittleEndian.decode [low, high] < 0x10000 := LittleEndian.decode_lt [low, high]
  have hspelled := LittleEndian.encode_decode [low, high]
  simp only [encode, pack, Opcode.code_of_ofCode? hop, List.cons.injEq, true_and, fieldSize]
  generalize LittleEndian.decode [low, high] = field at hfield hspelled
  have hsum : field % indexFlag % indexFlag + (if decide (indexFlag ≤ field) then indexFlag else 0) = field := by
    rw [Nat.mod_mod]
    simp only [decide_eq_true_eq]
    unfold indexFlag
    split <;> omega
  rw [hsum]
  exact hspelled

end Instruction

/-! ### Lines -/

namespace CodeLine

/-- What a line makes of the bytes from its address on. -/
structure Takes (line : CodeLine) (rest : List UInt8) : Prop where
  bytes : line.bytes <+: rest
  size : line.bytes.length = 1 ∨ line.bytes.length = 3
  /-- Three bytes where that many are left and the first is a code. -/
  instruction_iff : line.bytes.length = 3 ↔ 3 ≤ rest.length ∧ ∃ op : Opcode, rest.head? = some op.code
  instruction : line.bytes.length = 3 →
    ∃ i, Instruction.decode? line.bytes = some i ∧ i.encode = line.bytes ∧ line.text = i.text
  byte : line.bytes.length = 1 → ∃ b, line = ofByte line.address b

theorem takes_instruction {code low high : UInt8} {i : Instruction} (h : Instruction.decode? [code, low, high] = some i)
    (address : Nat) (more : List UInt8) :
    Takes ⟨address, [code, low, high], i.text⟩ (code :: low :: high :: more) := by
  refine ⟨⟨more, rfl⟩, .inr rfl, ⟨fun _ => ⟨by simp, ?_⟩, fun _ => rfl⟩, ?_, nofun⟩
  · obtain ⟨op, hop, -⟩ := Option.map_eq_some_iff.mp h
    exact ⟨op, congrArg some (Opcode.code_of_ofCode? hop).symm⟩
  · intro _
    exact ⟨i, h, Instruction.encode_of_decode? h, rfl⟩

theorem takes_byte {b : UInt8} {more : List UInt8} (h : 2 ≤ more.length → Opcode.ofCode? b = none) (address : Nat) :
    Takes (ofByte address b) (b :: more) := by
  refine ⟨⟨more, rfl⟩, .inl rfl, ⟨nofun, ?_⟩, nofun, fun _ => ⟨b, rfl⟩⟩
  rintro ⟨hlength, op, hop⟩
  cases hop
  have hnone := h (by simpa using hlength)
  rw [Opcode.ofCode?_code] at hnone
  cases hnone

theorem toList_text_ofByte (address : Nat) (b : UInt8) :
    (ofByte address b).text.toList =
      "BYTE".toList ++ ([' ', ' ', '0', 'x'] ++ (Hexadecimal.lower 2 b.toNat).toList) := by
  rw [ofByte, Hexadecimal.marked, String.toList_append, String.toList_append]
  rfl

/-- No instruction looks like a single byte: a mnemonic ends at the first blank, and none is BYTE. -/
theorem text_ofByte_ne (address : Nat) (b : UInt8) (i : Instruction) : (ofByte address b).text ≠ i.text := by
  intro htext
  have hlist := congrArg String.toList htext
  rw [toList_text_ofByte, Instruction.toList_text] at hlist
  have hmnemonic :=
    (append_inj_of_mark (by decide) i.opcode.blank_notMem_mnemonic (by simp) i.head?_operandText hlist).1
  exact i.opcode.mnemonic_ne_byte (String.toList_injective hmnemonic).symm

/-- A line that takes bytes can be told from its text. -/
theorem Takes.bytes_eq {line line' : CodeLine} {rest rest' : List UInt8} (h : line.Takes rest) (h' : line'.Takes rest')
    (htext : line.text = line'.text) : line.bytes = line'.bytes := by
  rcases h.size with hone | hthree <;> rcases h'.size with hone' | hthree'
  · obtain ⟨b, hb⟩ := h.byte hone
    obtain ⟨b', hb'⟩ := h'.byte hone'
    have hlist := congrArg String.toList htext
    rw [hb, hb', toList_text_ofByte, toList_text_ofByte] at hlist
    have hdigits := List.append_cancel_left (List.append_cancel_left hlist)
    rw [hb, hb', UInt8.toNat_inj.mp (Hexadecimal.lower_inj hdigits)]
    rfl
  · obtain ⟨b, hb⟩ := h.byte hone
    obtain ⟨i, -, -, hi⟩ := h'.instruction hthree'
    rw [hb, hi] at htext
    exact absurd htext (text_ofByte_ne _ b i)
  · obtain ⟨i, -, -, hi⟩ := h.instruction hthree
    obtain ⟨b, hb⟩ := h'.byte hone'
    rw [hi, hb] at htext
    exact absurd htext.symm (text_ofByte_ne _ b i)
  · obtain ⟨i, -, hencode, hi⟩ := h.instruction hthree
    obtain ⟨j, -, hencode', hj⟩ := h'.instruction hthree'
    rw [hi, hj] at htext
    rw [← hencode, ← hencode', Instruction.text_inj htext]

end CodeLine

/-! ### Payloads -/

/-- Lines that take a payload apart, from its address on. -/
inductive Swept : (address : Nat) → (payload : List UInt8) → List CodeLine → Prop
  | nil {address : Nat} : Swept address [] []
  | cons (line : CodeLine) {rest : List UInt8} {lines : List CodeLine} (htakes : line.Takes (line.bytes ++ rest))
      (hrest : Swept (line.address + line.bytes.length) rest lines) :
      Swept line.address (line.bytes ++ rest) (line :: lines)

theorem swept_disassemble (address : Nat) (payload : List UInt8) :
    Swept address payload (disassemble address payload) := by
  fun_induction disassemble address payload with
  | case1 => exact .nil
  | case2 address code low high rest i hdecode ih =>
    exact .cons ⟨address, [code, low, high], i.text⟩ (CodeLine.takes_instruction hdecode address rest) ih
  | case3 address code low high rest hdecode ih =>
    have hunknown : Opcode.ofCode? code = none := Option.map_eq_none_iff.mp hdecode
    exact .cons (.ofByte address code) (CodeLine.takes_byte (fun _ => hunknown) address) ih
  | case4 address b rest hshort ih =>
    have hfew : ¬2 ≤ rest.length := by
      match rest with
      | [] | [_] => simp
      | low :: high :: more => exact absurd rfl (hshort low high more)
    exact .cons (.ofByte address b) (CodeLine.takes_byte (fun h => absurd h hfew) address) ih

namespace Swept

variable {address : Nat} {payload : List UInt8} {lines : List CodeLine}

theorem flatMap_bytes (h : Swept address payload lines) : lines.flatMap CodeLine.bytes = payload := by
  induction h with
  | nil => rfl
  | cons _ _ _ ih => rw [List.flatMap_cons, ih]

/-- Each line stands behind the bytes of those before it and takes from what they leave. -/
theorem at_split {front back : List CodeLine} {line : CodeLine} (h : Swept address payload (front ++ line :: back)) :
    line.address = address + (front.flatMap CodeLine.bytes).length ∧
      line.Takes (payload.drop (front.flatMap CodeLine.bytes).length) := by
  induction front generalizing address payload with
  | nil =>
    cases h with
    | cons _ htakes _ => exact ⟨rfl, htakes⟩
  | cons first front ih =>
    cases h with
    | cons _ _ hrest =>
      obtain ⟨haddress, htakes⟩ := ih hrest
      rw [List.flatMap_cons, List.length_append, ← List.drop_drop, List.drop_left, ← Nat.add_assoc]
      exact ⟨haddress, htakes⟩

theorem payload_eq {address' : Nat} {payload' : List UInt8} {lines' : List CodeLine} (h : Swept address payload lines)
    (h' : Swept address' payload' lines') (htexts : lines.map CodeLine.text = lines'.map CodeLine.text) :
    payload = payload' := by
  induction h generalizing address' payload' lines' with
  | nil =>
    cases h' with
    | nil => rfl
    | cons => cases htexts
  | cons _ htakes _ ih =>
    cases h' with
    | nil => cases htexts
    | cons _ htakes' hrest' =>
      obtain ⟨htext, htexts⟩ := List.cons.inj htexts
      rw [htakes.bytes_eq htakes' htext, ih hrest' htexts]

end Swept

/-- The lines of a disassembly hold the payload, each at its address, and divide it into instructions and single bytes.
No address passes the end of the payload. The texts of the lines determine the payload, wherever it stands. -/
theorem disassembly_lossless (start : Nat) (payload : List UInt8) :
    (disassemble start payload).flatMap CodeLine.bytes = payload ∧
    (∀ front line back, disassemble start payload = front ++ line :: back →
      line.address = start + (front.flatMap CodeLine.bytes).length ∧
      line.address + line.bytes.length ≤ start + payload.length ∧
      line.Takes (payload.drop (front.flatMap CodeLine.bytes).length)) ∧
    ∀ start' payload', (disassemble start payload).map CodeLine.text = (disassemble start' payload').map CodeLine.text →
      payload = payload' := by
  have hswept := swept_disassemble start payload
  refine ⟨hswept.flatMap_bytes, ?_, ?_⟩
  · intro front line back hlines
    rw [hlines] at hswept
    obtain ⟨haddress, htakes⟩ := hswept.at_split
    refine ⟨haddress, ?_, htakes⟩
    rw [haddress, ← hswept.flatMap_bytes]
    simp only [List.flatMap_append, List.flatMap_cons, List.length_append]
    omega
  · intro start' payload' htexts
    exact hswept.payload_eq (swept_disassemble start' payload') htexts

/-- A mnemonic by itself, an indexed address and a byte that is no code. An index flag without an address shows in the
text, so that the mnemonic by itself stands for one instruction only. -/
theorem index_flag_shown :
    disassemble 0x1000 [0x15, 0, 0, 0x01, 0x09, 0x90, 0x2A] =
      [⟨0x1000, [0x15, 0, 0], "WD"⟩, ⟨0x1003, [0x01, 0x09, 0x90], "LDCH  0x1009,X"⟩, ⟨0x1006, [0x2A], "BYTE  0x2a"⟩] ∧
    CodeLine.Takes ⟨0x1003, [0x01, 0x09, 0x90], "LDCH  0x1009,X"⟩ [0x01, 0x09, 0x90, 0x2A] ∧
    (disassemble 0x1000 [0x15, 0, 0]).map CodeLine.text ≠ (disassemble 0x1000 [0x15, 0, 0x80]).map CodeLine.text := by
  have hlines : disassemble 0x1000 [0x15, 0, 0, 0x01, 0x09, 0x90, 0x2A] =
      [⟨0x1000, [0x15, 0, 0], "WD"⟩, ⟨0x1003, [0x01, 0x09, 0x90], "LDCH  0x1009,X"⟩,
        ⟨0x1006, [0x2A], "BYTE  0x2a"⟩] := by
    cbv
  refine ⟨hlines, ((disassembly_lossless 0x1000 _).2.1 [_] _ [_] hlines).2.2, ?_⟩
  intro htexts
  have := (disassembly_lossless 0x1000 [0x15, 0, 0]).2.2 0x1000 [0x15, 0, 0x80] htexts
  exact absurd this (by decide)

end Tribyte
