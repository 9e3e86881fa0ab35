import Tribyte.Proofs.Checked
import Tribyte.Proofs.Text.Utf8
import Tribyte.Source.Statement

/-! What a parsed statement can be.

The operation decides the form of the payload, and every number in it is within its bounds
(`Payload.Suits`). `parse_wellFormed` says so of every statement that a line gives. -/
namespace Tribyte

open Text

/-! ### Numbers in source text -/

theorem Text.Hexadecimal.digitValue_lt (c : Char) : digitValue c < 16 := by
  have hdigit : c.isDigit → c.toNat - '0'.toNat < 16 := by
    simp only [Char.isDigit, Bool.and_eq_true, decide_eq_true_eq, ge_iff_le, UInt32.le_iff_toNat_le]
    show 48 ≤ c.toNat ∧ c.toNat ≤ 57 → c.toNat - 48 < 16
    omega
  have hlower : ('a' ≤ c && c ≤ 'f') → c.toNat - 'a'.toNat + 10 < 16 := by
    simp only [Bool.and_eq_true, decide_eq_true_eq, Char.le_def, UInt32.le_iff_toNat_le]
    show 97 ≤ c.toNat ∧ c.toNat ≤ 102 → c.toNat - 97 + 10 < 16
    omega
  have hupper : ('A' ≤ c && c ≤ 'F') → c.toNat - 'A'.toNat + 10 < 16 := by
    simp only [Bool.and_eq_true, decide_eq_true_eq, Char.le_def, UInt32.le_iff_toNat_le]
    show 65 ≤ c.toNat ∧ c.toNat ≤ 70 → c.toNat - 65 + 10 < 16
    omega
  unfold digitValue
  split
  · exact hdigit ‹_›
  · split
    · exact hlower ‹_›
    · split
      · exact hupper ‹_›
      · decide

/-- Two digits spell a byte. -/
theorem Text.Hexadecimal.value_lt {count : Nat} {cs : List Char} (h : cs.length = 2 * count) :
    value cs < LittleEndian.bound count := by
  suffices ∀ high, cs.foldl (fun n c => 16 * n + digitValue c) high < (high + 1) * LittleEndian.bound count by
    have := this 0
    rwa [Nat.zero_add, Nat.one_mul] at this
  induction count generalizing cs with
  | zero =>
    intro high
    rw [List.eq_nil_of_length_eq_zero h, List.foldl_nil, LittleEndian.bound]
    omega
  | succ count ih =>
    intro high
    obtain ⟨c, d, rest, rfl⟩ : ∃ c d rest, cs = c :: d :: rest := by
      rcases cs with _ | ⟨c, _ | ⟨d, rest⟩⟩
      · rw [List.length_nil] at h
        omega
      · rw [List.length_singleton] at h
        omega
      · exact ⟨c, d, rest, rfl⟩
    have hc := digitValue_lt c
    have hd := digitValue_lt d
    have hlength : rest.length = 2 * count := by
      simp only [List.length_cons] at h
      omega
    have hrest := ih hlength (16 * (16 * high + digitValue c) + digitValue d)
    rw [List.foldl_cons, List.foldl_cons, LittleEndian.bound]
    calc rest.foldl _ (16 * (16 * high + digitValue c) + digitValue d)
        < (16 * (16 * high + digitValue c) + digitValue d + 1) * LittleEndian.bound count := hrest
      _ ≤ ((high + 1) * 256) * LittleEndian.bound count := Nat.mul_le_mul_right _ (by omega)
      _ = (high + 1) * (256 * LittleEndian.bound count) := Nat.mul_assoc ..

theorem Text.Hexadecimal.read?_lt (count : Nat) {cs : List Char} {n : Nat} (h : read? (2 * count) cs = some n) :
    n < LittleEndian.bound count := by
  unfold read? at h
  split at h
  · rename_i hdigits
    cases h
    exact value_lt hdigits.1
  · cases h

theorem readAddress?_le {text : String} {address : Nat} (h : readAddress? text = some address) :
    address ≤ 0xFFFF := Nat.le_of_lt_succ (Hexadecimal.read?_lt 2 h)

theorem Literal.unsignedWord_le {text : String} {digits : List Char} {value : Nat}
    (h : unsignedWord text digits = .ok value) : value ≤ Word.greatest := by
  unfold unsignedWord at h
  repeat' split at h
  all_goals first
    | cases h; exact Nat.le_of_not_lt ‹_›
    | cases h

theorem Literal.signedWord_le {text : String} {cs : List Char} {value : Nat}
    (h : signedWord text cs = .ok value) : value ≤ Word.greatest := by
  unfold signedWord at h
  repeat' split at h
  all_goals first
    | cases h; exact Nat.le_of_lt_succ (Word.ofSigned_lt _)
    | cases h

theorem Literal.word_le {text : String} {value : Nat} (h : word text = .ok value) :
    value ≤ Word.greatest := by
  unfold word at h
  split at h
  · split at h
    · rename_i hhex
      cases h
      exact Nat.le_of_lt_succ (Hexadecimal.read?_lt 3 hhex)
    · cases h
  · split at h
    · exact unsignedWord_le h
    · exact signedWord_le h

/-! ### Names -/

theorem mem_symbol {s : String} (h : isSymbol s) {c : Char} (hc : c ∈ s.toList) : c.isUpper ∨ c.isDigit := by
  unfold isSymbol at h
  split at h
  · cases h
  · rename_i first rest hs
    rw [hs] at hc
    obtain ⟨hfirst, hrest⟩ := Bool.and_eq_true_iff.mp h
    rcases List.mem_cons.mp hc with rfl | hc
    · exact .inl hfirst
    · simpa using List.all_eq_true.mp hrest c hc

theorem isSymbol_of_isLabel {s : String} (h : isLabel s) : isSymbol s := (Bool.and_eq_true_iff.mp h).2

theorem toNat_of_isDigit {c : Char} (h : c.isDigit) : 48 ≤ c.toNat ∧ c.toNat ≤ 57 := by
  simp only [Char.isDigit, Bool.and_eq_true, decide_eq_true_eq, ge_iff_le, UInt32.le_iff_toNat_le] at h
  exact h

theorem toNat_of_upper_or_digit {c : Char} (h : c.isUpper ∨ c.isDigit) : 48 ≤ c.toNat ∧ c.toNat ≤ 90 := by
  rcases h with h | h
  · have hletter : 65 ≤ c.toNat ∧ c.toNat ≤ 90 := of_decide_eq_true h
    omega
  · have := toNat_of_isDigit h
    omega

theorem utf8Size_of_upper_or_digit {c : Char} (h : c.isUpper ∨ c.isDigit) : c.utf8Size = 1 ∧ c ≠ '\x00' := by
  have hrange : 48 ≤ c.val.toNat ∧ c.val.toNat ≤ 90 := toNat_of_upper_or_digit h
  refine ⟨?_, ?_⟩
  · rw [Char.utf8Size_eq_one_iff, UInt32.le_iff_toNat_le]
    show c.val.toNat ≤ 127
    omega
  · intro hnul
    rw [hnul] at hrange
    exact absurd hrange.1 (by decide)

/-- A label fills one byte for each of its characters. -/
theorem length_encode_label {s : String} (h : isLabel s) : (Utf8.encode s.toList).length ≤ 6 := by
  suffices ∀ cs : List Char, (∀ c ∈ cs, c.isUpper ∨ c.isDigit) → (Utf8.encode cs).length = cs.length by
    rw [this _ fun c hc => mem_symbol (isSymbol_of_isLabel h) hc]
    exact of_decide_eq_true (Bool.and_eq_true_iff.mp h).1
  intro cs hcs
  induction cs with
  | nil => rfl
  | cons c rest ih =>
    rw [Utf8.encode_cons, List.length_append, String.length_utf8EncodeChar,
      (utf8Size_of_upper_or_digit (hcs c (List.mem_cons_self ..))).1,
      ih fun d hd => hcs d (List.mem_cons_of_mem c hd), List.length_cons, Nat.add_comm]

theorem takeWhile_label {s : String} (h : isLabel s) :
    String.ofList (s.toList.takeWhile (· != '\x00')) = s := by
  have hall : ∀ c ∈ s.toList, (c != '\x00') = true :=
    fun c hc => bne_iff_ne.mpr (utf8Size_of_upper_or_digit (mem_symbol (isSymbol_of_isLabel h) hc)).2
  rw [← List.append_nil s.toList, List.takeWhile_append_of_pos hall, List.takeWhile_nil, List.append_nil,
    String.ofList_toList]

/-! ### Payloads -/

/-- The form that an operation gives its payload, and the bounds of the numbers in it. -/
def Payload.Suits : Payload → Operation → Prop
  | instruction symbol _, .opcode op => op.needsOperand → symbol ≠ none
  | word value, .directive .word => value ≤ Word.greatest
  | bytes bs, .directive .byte => 1 ≤ bs.length ∧ bs.length ≤ blockSize
  | start _ address, .directive .start => address ≤ 0xFFFF
  | finish _ address, .directive .finish => ∀ a, address = some a → a ≤ 0xFFFF
  | reserve count unit, .directive .reserveBytes => unit = 1 ∧ count * unit ≤ Word.greatest
  | reserve count unit, .directive .reserveWords => unit = 3 ∧ count * unit ≤ Word.greatest
  | _, _ => False

namespace Payload

theorem Suits.of_start {name : String} {address : Nat} {operation : Operation}
    (h : (start name address).Suits operation) : operation = .directive .start ∧ address ≤ 0xFFFF := by
  unfold Suits at h
  split at h <;> simp_all

theorem Suits.of_instruction {symbol : Option String} {indexed : Bool} {operation : Operation}
    (h : (instruction symbol indexed).Suits operation) : ∃ op, operation = .opcode op := by
  unfold Suits at h
  split at h <;> simp_all

theorem Suits.of_bytes {bs : List UInt8} {operation : Operation} (h : (bytes bs).Suits operation) :
    1 ≤ bs.length ∧ bs.length ≤ blockSize := by
  unfold Suits at h
  split at h <;> simp_all

theorem Suits.of_reserve {count unit : Nat} {operation : Operation} (h : (reserve count unit).Suits operation) :
    count * unit ≤ Word.greatest := by
  cases operation with
  | opcode op => exact h.elim
  | directive d =>
    cases d with
    | reserveBytes | reserveWords => exact h.2
    | start | finish | byte | word => exact h.elim

theorem Suits.opcode {payload : Payload} {op : Opcode} (h : payload.Suits (.opcode op)) :
    ∃ symbol indexed, payload = .instruction symbol indexed ∧ (op.needsOperand → symbol ≠ none) := by
  cases payload with
  | instruction symbol indexed => exact ⟨symbol, indexed, rfl, h⟩
  | word | bytes | start | finish | reserve => exact h.elim

theorem Suits.start {payload : Payload} (h : payload.Suits (.directive .start)) :
    ∃ name address, payload = .start name address := by
  cases payload with
  | start name address => exact ⟨name, address, rfl⟩
  | instruction | word | bytes | finish | reserve => exact h.elim

theorem Suits.word {payload : Payload} (h : payload.Suits (.directive .word)) :
    ∃ value, payload = .word value ∧ value ≤ Word.greatest := by
  cases payload with
  | word value => exact ⟨value, rfl, h⟩
  | instruction | bytes | start | finish | reserve => exact h.elim

theorem Suits.byte {payload : Payload} (h : payload.Suits (.directive .byte)) : ∃ bs, payload = .bytes bs := by
  cases payload with
  | bytes bs => exact ⟨bs, rfl⟩
  | instruction | word | start | finish | reserve => exact h.elim

theorem Suits.reserve {payload : Payload} {directive : Directive} (h : payload.Suits (.directive directive))
    (hdirective : directive = .reserveBytes ∨ directive = .reserveWords) :
    ∃ count unit, payload = .reserve count unit := by
  cases payload with
  | reserve count unit => exact ⟨count, unit, rfl⟩
  | instruction | word | bytes | start | finish => rcases hdirective with rfl | rfl <;> exact h.elim

theorem Suits.finish {payload : Payload} (h : payload.Suits (.directive .finish)) :
    ∃ symbol address, payload = .finish symbol address ∧ ∀ a, address = some a → a ≤ 0xFFFF := by
  cases payload with
  | finish symbol address => exact ⟨symbol, address, rfl, h⟩
  | instruction | word | bytes | start | reserve => exact h.elim

theorem ofReference_suits {text : String} {payload : Payload} (h : ofReference text = .ok payload) (op : Opcode) :
    payload.Suits (.opcode op) := by
  unfold ofReference at h
  dsimp only at h
  repeat' split at h
  all_goals cases h
  all_goals exact fun _ => Option.some_ne_none _

theorem ofStart_suits {label operand : Option String} {payload : Payload} (h : ofStart label operand = .ok payload) :
    payload.Suits (.directive .start) ∧ ∀ name address, payload = .start name address → label = some name := by
  unfold ofStart at h
  split at h
  · cases h
  · obtain ⟨text, -, h⟩ := Checked.bind_eq_ok_iff.mp h
    split at h
    · rename_i haddress
      cases h
      refine ⟨readAddress?_le haddress, ?_⟩
      intro name address hstart
      cases hstart
      rfl
    · cases h

theorem ofFinish_suits {operand : Option String} {payload : Payload} (h : ofFinish operand = .ok payload) :
    payload.Suits (.directive .finish) := by
  unfold ofFinish at h
  split at h
  · cases h
    intro a ha
    cases ha
    decide
  · rename_i text
    generalize (if isSymbol text then some text else none) = symbol at h
    dsimp only at h
    split at h
    · cases h
    · cases h
      exact fun a => readAddress?_le

theorem ofCount_eq {unit : Nat} {operand : Option String} {payload : Payload} (h : ofCount unit operand = .ok payload) :
    ∃ count, payload = .reserve count unit ∧ count * unit ≤ Word.greatest := by
  unfold ofCount at h
  obtain ⟨text, -, h⟩ := Checked.bind_eq_ok_iff.mp h
  split at h
  · cases h
  · rename_i count _
    split at h
    · cases h
    · cases h
      exact ⟨count, rfl, Nat.le_of_not_lt ‹_›⟩

theorem ofWord_suits {operand : Option String} {payload : Payload} (h : ofWord operand = .ok payload) :
    payload.Suits (.directive .word) := by
  unfold ofWord at h
  obtain ⟨text, -, h⟩ := Checked.bind_eq_ok_iff.mp h
  split at h
  · rename_i hword
    cases h
    exact Literal.word_le hword
  · cases h

theorem ofBytes_suits {operand : Option String} {payload : Payload} (h : ofBytes operand = .ok payload) :
    payload.Suits (.directive .byte) := by
  unfold ofBytes at h
  obtain ⟨text, -, h⟩ := Checked.bind_eq_ok_iff.mp h
  split at h
  · cases h
  · split at h
    · cases h
      assumption
    · cases h

theorem ofOperand_suits {operation : Operation} {label operand : Option String} {payload : Payload}
    (h : ofOperand operation label operand = .ok payload) : payload.Suits operation := by
  cases operation with
  | opcode op =>
    cases operand with
    | none =>
      simp only [ofOperand] at h
      split at h
      · cases h
      · rename_i hneeds
        cases h
        exact fun h => absurd h hneeds
    | some text => exact ofReference_suits h op
  | directive d =>
    cases d with
    | start => exact (ofStart_suits h).1
    | finish => exact ofFinish_suits h
    | byte => exact ofBytes_suits h
    | word => exact ofWord_suits h
    | reserveBytes =>
      obtain ⟨count, rfl, hcount⟩ := ofCount_eq h
      exact ⟨rfl, hcount⟩
    | reserveWords =>
      obtain ⟨count, rfl, hcount⟩ := ofCount_eq h
      exact ⟨rfl, hcount⟩

/-- Only START has a payload with a program name, and the name is its label. -/
theorem ofOperand_start {operation : Operation} {label operand : Option String} {name : String} {address : Nat}
    (h : ofOperand operation label operand = .ok (.start name address)) : label = some name := by
  have hsuits := ofOperand_suits h
  cases operation with
  | opcode op => exact hsuits.elim
  | directive d =>
    cases d with
    | start => exact (ofStart_suits h).2 name address rfl
    | finish | byte | word | reserveBytes | reserveWords => exact hsuits.elim

end Payload

/-! ### Statements -/

structure Statement.WellFormed (s : Statement) : Prop where
  suits : s.payload.Suits s.operation
  label : ∀ label, s.label = some label → isLabel label
  name : ∀ name address, s.payload = .start name address → s.label = some name

theorem checkLabel_eq_ok {line : Nat} {label : Option String} (h : checkLabel line label = .ok ()) :
    ∀ name, label = some name → isLabel name := by
  intro name hname
  subst hname
  unfold checkLabel at h
  split at h
  · cases ‹some name = none›
  · cases ‹some name = some _›
    split at h
    · assumption
    · cases h

theorem Statement.parse_eq_ok_iff {fields : List String} {location line : Nat} {s : Statement} :
    Statement.parse fields location line = .ok s ↔
      ∃ parts payload, Parts.ofFields line fields = .ok parts ∧ checkLabel line parts.label = .ok () ∧
        Payload.ofOperand parts.operation parts.label parts.operand = .ok payload ∧
        s = { mnemonic := parts.name, operation := parts.operation, location, line, label := parts.label,
              operand := parts.operand, payload } := by
  unfold Statement.parse
  constructor
  · intro h
    obtain ⟨parts, hparts, h⟩ := Checked.bind_eq_ok_iff.mp h
    obtain ⟨_, hlabel, h⟩ := Checked.bind_eq_ok_iff.mp h
    split at h
    · cases h
    · rename_i payload hpayload
      cases h
      exact ⟨parts, payload, hparts, hlabel, hpayload, rfl⟩
  · intro h
    obtain ⟨parts, payload, hparts, hlabel, hpayload, rfl⟩ := h
    refine Checked.bind_eq_ok_iff.mpr ⟨parts, hparts, Checked.bind_eq_ok_iff.mpr ⟨(), hlabel, ?_⟩⟩
    rw [hpayload]
    rfl

theorem Statement.parse_wellFormed {fields : List String} {location line : Nat} {s : Statement}
    (h : Statement.parse fields location line = .ok s) : s.WellFormed ∧ s.location = location := by
  obtain ⟨parts, payload, -, hlabel, hpayload, rfl⟩ := parse_eq_ok_iff.mp h
  refine ⟨⟨Payload.ofOperand_suits hpayload, checkLabel_eq_ok hlabel, ?_⟩, rfl⟩
  intro name address hstart
  exact Payload.ofOperand_start (hpayload.trans (congrArg Except.ok hstart))

end Tribyte
