import Tribyte.Proofs.Assembly.Formatting
import Tribyte.Proofs.Programs.Code
import Tribyte.Proofs.Source.Escapes
import Tribyte.Proofs.Source.WordLiterals

/-! A program that prints a message.

The message and its length stand in the source text, so that the text is read first: its lines
(`sourceLines_source`), its statements (`listed`) and the program they make (`isProgram`). A round loads one byte by its
number, prints it and counts (`prints_byte`); before the last byte the jump leads back (`goes_round`), and after it the
program halts (`stops_at_end`). `message_printed` puts this together for every message that fits one literal. -/
namespace Tribyte.MessageLoop

open Text Machine

def source (message : List UInt8) : String :=
  "LOOP   START  0000\nFIRST  LDCH   MSG,X\n       WD\n       TIX    LEN\n       JLT    FIRST\n       HLT\n" ++
    "MSG    BYTE   " ++ Literal.quoted message ++ "\nLEN    WORD   " ++ toString message.length ++
    "\n       END    FIRST\n"

/-! ### Its lines -/

/-- The blanks of the two lines that depend on the message. -/
def columns : Spacing :=
  { Spacing.single with
    first := [' ', ' ', ' ', ' ']
    second := [' ', ' ', ' ']
    first_blank := by decide
    first_ne_nil := List.cons_ne_nil _ _
    second_blank := by decide
    second_ne_nil := List.cons_ne_nil _ _ }

def lines (message : List UInt8) : List (List Char) := [
  "LOOP   START  0000".toList,
  "FIRST  LDCH   MSG,X".toList,
  "       WD".toList,
  "       TIX    LEN".toList,
  "       JLT    FIRST".toList,
  "       HLT".toList,
  "MSG    BYTE   ".toList ++ (Literal.quoted message).toList,
  "LEN    WORD   ".toList ++ (toString message.length).toList,
  "       END    FIRST".toList,
  []]

theorem source_eq (message : List UInt8) : source message = textOf (lines message) := by
  have hfront :
      "LOOP   START  0000\nFIRST  LDCH   MSG,X\n       WD\n       TIX    LEN\n       JLT    FIRST\n       HLT\n".toList =
        ['\n'].intercalate ["LOOP   START  0000".toList, "FIRST  LDCH   MSG,X".toList, "       WD".toList,
          "       TIX    LEN".toList, "       JLT    FIRST".toList, "       HLT".toList, []] := String.toList_ofList
  have hlength : "\nLEN    WORD   ".toList = '\n' :: "LEN    WORD   ".toList := rfl
  have hend : "\n       END    FIRST\n".toList = '\n' :: ("       END    FIRST".toList ++ ['\n']) := rfl
  -- About any lines, so that no literal is evaluated here.
  have hjoin (a b c d e f g h i q n : List Char) :
      ['\n'].intercalate [a, b, c, d, e, f, []] ++ g ++ q ++ '\n' :: h ++ n ++ '\n' :: (i ++ ['\n']) =
        ['\n'].intercalate [a, b, c, d, e, f, g ++ q, h ++ n, i, []] := by simp [List.intercalate]
  apply String.toList_inj.mp
  rw [textOf, String.toList_ofList]
  unfold source
  simp only [String.toList_append, hfront, hlength, hend]
  exact hjoin ..

/-- What the decimal of a number is made of. -/
theorem visible_of_decimal {n : Nat} {c : Char} (hc : c ∈ (toString n).toList) :
    isBlank c = false ∧ c ≠ '#' ∧ c ≠ '\'' := by
  rw [Nat.toString_eq_ofList_toDigits, String.toList_ofList] at hc
  have hdigit := (Numeral.spells_toDigits (by decide) (by decide) n).digits c hc
  exact Literal.isDigit_visible ((Numeral.weighed c).hexadecimal.mpr (Nat.lt_trans hdigit (by decide)))

theorem columns_write (label name operand : List Char) :
    columns.write [label, name, operand] = label ++ columns.first ++ (name ++ columns.second) ++ operand := by
  simp [Spacing.write, Spacing.join, columns, Spacing.single]

section Ascii

variable {message : List UInt8} (hascii : ∀ b ∈ message, b.toNat < 128)
include hascii

theorem lineFields_message :
    lineFields ("MSG    BYTE   ".toList ++ (Literal.quoted message).toList) =
      ["MSG", "BYTE", Literal.quoted message] := by
  have hfront : "MSG    BYTE   ".toList = "MSG".toList ++ columns.first ++ ("BYTE".toList ++ columns.second) := rfl
  rw [hfront, ← columns_write]
  exact columns.lineFields_labelled (by decide) (by decide) (Literal.bytes_isTrimmed (Literal.bytes_quoted hascii))
    (Literal.neutral_quoted hascii)

omit hascii in
theorem lineFields_length (n : Nat) :
    lineFields ("LEN    WORD   ".toList ++ (toString n).toList) = ["LEN", "WORD", toString n] := by
  have hfront : "LEN    WORD   ".toList = "LEN".toList ++ columns.first ++ ("WORD".toList ++ columns.second) := rfl
  have hword : IsWord (toString n).toList := by
    refine ⟨?_, fun c hc => (visible_of_decimal hc).1⟩
    rw [Nat.toString_eq_ofList_toDigits, String.toList_ofList]
    exact Nat.toDigits_ne_nil
  rw [hfront, ← columns_write]
  exact columns.lineFields_labelled (by decide) (by decide) hword.isTrimmed
    (neutral_of_forall fun c hc => (visible_of_decimal hc).2)

theorem lineFeed_notMem_lines : ∀ line ∈ lines message, '\n' ∉ line := by
  have hblank : isBlank '\n' = true := by decide
  have hdecimal : '\n' ∉ (toString message.length).toList := by
    intro hmem
    rw [(visible_of_decimal hmem).1] at hblank
    cases hblank
  simpa [lines, Literal.lineFeed_notMem_quoted hascii] using hdecimal

theorem sourceLines_source :
    sourceLines (source message) = [⟨1, ["LOOP", "START", "0000"]⟩, ⟨2, ["FIRST", "LDCH", "MSG,X"]⟩, ⟨3, ["WD"]⟩,
      ⟨4, ["TIX", "LEN"]⟩, ⟨5, ["JLT", "FIRST"]⟩, ⟨6, ["HLT"]⟩, ⟨7, ["MSG", "BYTE", Literal.quoted message]⟩,
      ⟨8, ["LEN", "WORD", toString message.length]⟩, ⟨9, ["END", "FIRST"]⟩] := by
  have hstart : lineFields "LOOP   START  0000".toList = ["LOOP", "START", "0000"] := rfl
  have hload : lineFields "FIRST  LDCH   MSG,X".toList = ["FIRST", "LDCH", "MSG,X"] := rfl
  have hwrite : lineFields "       WD".toList = ["WD"] := rfl
  have hcount : lineFields "       TIX    LEN".toList = ["TIX", "LEN"] := rfl
  have hagain : lineFields "       JLT    FIRST".toList = ["JLT", "FIRST"] := rfl
  have hhalt : lineFields "       HLT".toList = ["HLT"] := rfl
  have hend : lineFields "       END    FIRST".toList = ["END", "FIRST"] := rfl
  have hnone : lineFields [] = [] := rfl
  rw [source_eq, sourceLines_textOf (lineFeed_notMem_lines hascii)]
  simp only [lines, numberedLines, hstart, hload, hwrite, hcount, hagain, hhalt, lineFields_message hascii,
    lineFields_length, hend, hnone, reduceCtorEq, if_false, if_true]

end Ascii

/-! ### Its statements -/

def first : Statement := ⟨"START", .directive .start, 0, 1, some "LOOP", some "0000", .start "LOOP" 0⟩

def body (message : List UInt8) : List Statement := [
  ⟨"LDCH", .opcode .ldch, 0, 2, some "FIRST", some "MSG,X", .instruction (some "MSG") true⟩,
  ⟨"WD", .opcode .wd, 3, 3, none, none, .instruction none false⟩,
  ⟨"TIX", .opcode .tix, 6, 4, none, some "LEN", .instruction (some "LEN") false⟩,
  ⟨"JLT", .opcode .jlt, 9, 5, none, some "FIRST", .instruction (some "FIRST") false⟩,
  ⟨"HLT", .opcode .hlt, 12, 6, none, none, .instruction none false⟩,
  ⟨"BYTE", .directive .byte, 15, 7, some "MSG", some (Literal.quoted message), .bytes message⟩,
  ⟨"WORD", .directive .word, 15 + message.length, 8, some "LEN", some (toString message.length),
    .word message.length⟩]

theorem get_mem_body (message : List UInt8) (k : Fin 7) : (body message).get k ∈ body message :=
  List.get_mem (body message) k

def last (message : List UInt8) : Statement :=
  ⟨"END", .directive .finish, 15 + message.length + 3, 9, none, some "FIRST", .finish (some "FIRST") none⟩

section Short

variable {message : List UInt8} (hascii : ∀ b ∈ message, b.toNat < 128) (hleast : 1 ≤ message.length)
  (hmost : message.length ≤ 30)
include hascii hleast hmost

theorem listed : Listed 0 (sourceLines (source message)) (first :: (body message ++ [last message])) := by
  have hlength : Statement.parse ["LEN", "WORD", toString message.length] (15 + message.length) 8 =
      .ok ⟨"WORD", .directive .word, 15 + message.length, 8, some "LEN", some (toString message.length),
        .word message.length⟩ := by
    refine Statement.parse_eq_ok_iff.mpr
      ⟨⟨some "LEN", "WORD", some (toString message.length), .directive .word⟩, .word message.length, rfl, rfl, ?_, rfl⟩
    refine Checked.bind_eq_ok_iff.mpr ⟨toString message.length, rfl, ?_⟩
    rw [Literal.word_decimal (by omega)]
    rfl
  have hend : Statement.parse ["END", "FIRST"] (15 + message.length + 3) 9 = .ok (last message) := rfl
  rw [sourceLines_source hascii]
  refine .cons (s := first) rfl (.cons rfl (.cons rfl (.cons rfl (.cons rfl (.cons rfl ?_)))))
  exact .cons (Statement.parse_bytes (by decide) (Literal.bytes_quoted hascii) ⟨hleast, hmost⟩ 15 7)
    (.cons hlength (.cons hend .nil))

omit hascii hleast in
theorem isProgram : IsProgram (first :: (body message ++ [last message])) := by
  constructor
  case bounded =>
    have hshort : 15 + message.length ≤ 0xFFFFFF ∧ 15 + message.length + 3 ≤ 0xFFFFFF := by omega
    simpa [first, body, last, Statement.following, Statement.startOr, Statement.size, Payload.size, Instruction.size,
      Word.greatest] using hshort
  case distinct => simp [first, body, last]
  case framed =>
    exact ⟨first, body message, last message, rfl, List.cons_ne_nil _ _, rfl, rfl, by simp [body]⟩
  case resolved =>
    have hreach : 15 + message.length ≤ 0x7FFF := by omega
    simpa [first, body, last, Instruction.greatestAddress] using hreach
  case entry => simp [first, body, last]

theorem assembled : ∃ l, Assembled (source message) l ⟨"LOOP", 0, body message, last message⟩ 0 :=
  (listed hascii hleast hmost).exists_assembled (isProgram hmost) rfl rfl (get_mem_body message 0) rfl

end Short

/-! ### Its code -/

/-- The program in memory, from `base` up to `terminal`. -/
structure Code (memory : Memory) (base terminal : Nat) (message : List UInt8) : Prop where
  load : memory.Holds base ⟨.ldch, true, base + 15⟩
  write : memory.Holds (base + 3) ⟨.wd, false, 0⟩
  count : memory.Holds (base + 6) ⟨.tix, false, base + (15 + message.length)⟩
  again : memory.Holds (base + 9) ⟨.jlt, false, base⟩
  halt : memory.Holds (base + 12) ⟨.hlt, false, 0⟩
  text : memory.bytes (base + 15) message.length = message
  length : memory.read 3 (base + (15 + message.length)) = .ok message.length
  stop : base + (15 + message.length + 3) = terminal
  space : terminal ≤ Word.modulus
  size : memory.size = Word.modulus

theorem code_of_loaded {message : List UInt8} {l : Layout} {base : Nat} {memory : Memory}
    (hassembled : Assembled (source message) l ⟨"LOOP", 0, body message, last message⟩ 0)
    (h : Loaded l ⟨"LOOP", 0, body message, last message⟩ base (.zeroed Memory.addressSpace) memory) :
    Code memory base (base + (last message).location) message := by
  constructor
  case load => exact h.holds_symbolic hassembled (get_mem_body _ 0) rfl rfl (get_mem_body _ 5) rfl
  case write => exact h.holds hassembled (get_mem_body _ 1) rfl rfl rfl
  case count => exact h.holds_symbolic hassembled (get_mem_body _ 2) rfl rfl (get_mem_body _ 6) rfl
  case again => exact h.holds_symbolic hassembled (get_mem_body _ 3) rfl rfl (get_mem_body _ 0) rfl
  case halt => exact h.holds hassembled (get_mem_body _ 4) rfl rfl rfl
  case text => exact h.bytes_eq_of_coded hassembled (get_mem_body _ 5) (.bytes rfl) rfl
  case length => exact h.read_word hassembled (get_mem_body _ 6) rfl rfl
  case stop => rfl
  case space => exact h.inside_last hassembled
  case size => exact h.laid.size

/-! ### Its rounds -/

/-- The program about to load the byte with number `x`. -/
def loading (memory : Memory) (base : Nat) (input : List UInt8) (a x sw : Nat) (output : Array UInt8) : Machine :=
  { registers := { a, x, pc := base, sw }, memory, console := { input, output } }

section Rounds

variable {memory : Memory} {base terminal : Nat} {message : List UInt8} (hcode : Code memory base terminal message)
  (hmost : message.length ≤ 30) (input : List UInt8)
include hcode hmost

/-- The steps up to the jump, which print one byte. -/
theorem prints_byte (a sw : Nat) {x : Nat} {b : UInt8} (hb : message[x]? = some b) (output : Array UInt8) :
    (loading memory base input a x sw output).runFor terminal 3 =
      (none, (loading memory base input b.toNat (x + 1) (if x + 1 < message.length then 1 else 0)
        (output.push b)).withPc (base + 9)) := by
  have hstop := hcode.stop
  have hspace := hcode.space
  have hx : x < message.length := (List.getElem?_eq_some_iff.mp hb).1
  have hnext (k : Nat) (hk : k ≤ 12) : base + k + 3 < terminal := by omega
  have hbyte : memory.byte (base + 15 + x) = b := Memory.byte_of_getElem? (hcode.text.symm ▸ hb)
  have hinside : base + 15 + x < memory.size := by
    rw [hcode.size]
    omega
  have hload : (loading memory base input a x sw output).turn terminal =
      (none, (loading memory base input b.toNat x sw output).withPc (base + 3)) :=
    turn_ldch (hnext 0 (by decide)) hspace hcode.load hbyte hinside (Nat.le_of_eq hcode.size)
  have hwrite : ((loading memory base input b.toNat x sw output).withPc (base + 3)).turn terminal =
      (none, (loading memory base input b.toNat x sw (output.push b)).withPc (base + 6)) :=
    turn_wd (hnext 3 (by decide)) hspace hcode.write rfl rfl
  have hcount := turn_tix (m := (loading memory base input b.toNat x sw (output.push b)).withPc (base + 6))
    (hnext 6 (by decide)) hspace hcode.count hcode.length hx (by omega)
  exact runFor_cons hload (runFor_cons hwrite (runFor_cons hcount rfl))

/-- Before the last byte the jump leads back. -/
theorem goes_round (a sw : Nat) {x : Nat} {b : UInt8} (hb : message[x]? = some b) (hx : x + 1 < message.length)
    (output : Array UInt8) :
    (loading memory base input a x sw output).runFor terminal 4 =
      (none, loading memory base input b.toNat (x + 1) 1 (output.push b)) := by
  have hprint := prints_byte hcode hmost input a sw hb output
  rw [if_pos hx] at hprint
  exact (runFor_trans hprint 1).trans (runFor_cons (turn_taken hcode.again rfl rfl) rfl)

/-- After it the program halts. -/
theorem stops_at_end (a sw : Nat) {x : Nat} {b : UInt8} (hb : message[x]? = some b) (hx : x + 1 = message.length)
    (output : Array UInt8) :
    ∃ m, (loading memory base input a x sw output).Stops terminal 4 (.ok .halted) m ∧
      m.console.output = output.push b ∧ m.registers.x = message.length ∧ m.registers.sw = 0 := by
  have hstop := hcode.stop
  have hprint := prints_byte hcode hmost input a sw hb output
  rw [hx, if_neg (Nat.lt_irrefl _)] at hprint
  have hpassed :
      ((loading memory base input b.toNat message.length 0 (output.push b)).withPc (base + 9)).turn terminal =
        (none, (loading memory base input b.toNat message.length 0 (output.push b)).withPc (base + 12)) := by
    refine turn_passed (show base + 9 + 3 < terminal by omega) hcode.space hcode.again rfl ?_
    exact mt (Registers.holds_less _).mp Nat.zero_ne_one
  have hdone := (runFor_trans hprint 1).trans (runFor_cons hpassed rfl)
  exact ⟨_, .of_running hdone (stops_of_turn (turn_hlt hcode.halt)), rfl, rfl, rfl⟩

/-- After some rounds the front of the message is printed. -/
theorem prints_front {x : Nat} (hx : x < message.length) :
    ∃ a sw, (loading memory base input 0 0 0 #[]).runFor terminal (4 * x) =
      (none, loading memory base input a x sw (message.take x).toArray) := by
  induction x with
  | zero => exact ⟨0, 0, rfl⟩
  | succ x ih =>
    obtain ⟨a, sw, hrun⟩ := ih (by omega)
    have hround := goes_round hcode hmost input a sw (List.getElem?_eq_getElem (by omega)) hx (message.take x).toArray
    rw [List.push_toArray, List.take_append_getElem] at hround
    exact ⟨_, 1, (runFor_trans hrun 4).trans hround⟩

theorem prints_message (hleast : 1 ≤ message.length) :
    ∃ m, (loading memory base input 0 0 0 #[]).Stops terminal (4 * message.length) (.ok .halted) m ∧
      m.console.output.toList = message ∧ m.registers.x = message.length ∧ m.registers.sw = 0 := by
  obtain ⟨x, hx⟩ := Nat.exists_eq_add_of_le' hleast
  obtain ⟨a, sw, hrun⟩ := prints_front hcode hmost input (show x < message.length by omega)
  obtain ⟨m, hstops, houtput, hcount, hstatus⟩ :=
    stops_at_end hcode hmost input a sw (List.getElem?_eq_getElem (by omega)) hx.symm (message.take x).toArray
  rw [List.push_toArray, List.take_append_getElem, ← hx, List.take_length] at houtput
  have hsteps : 4 * message.length = 4 * x + 4 := by omega
  rw [hsteps]
  exact ⟨m, .of_running hrun hstops, by rw [houtput], hcount, hstatus⟩

end Rounds

/-- Wherever the program is loaded, it prints its message and halts with one step more than four for each byte. The
index register has then counted the bytes, and the last comparison has found them all. -/
theorem message_printed (message : List UInt8) (hleast : 1 ≤ message.length) (hmost : message.length ≤ 30)
    (hascii : ∀ b ∈ message, b.toNat < 128) :
    ∃ records image, assemble (source message) = .ok records ∧ encodeImage records = .ok image ∧
      ∀ base,
        ((∃ program memory, loadImage (.zeroed Memory.addressSpace) image base = (.ok program, memory)) ↔
          base + 15 + message.length ≤ 0x7FFF) ∧
        ∀ program memory, loadImage (.zeroed Memory.addressSpace) image base = (.ok program, memory) → ∀ input,
          ∃ m, program.run memory { input } none = (.ok .halted, m) ∧
            (program.start memory { input }).Stops program.terminal (4 * message.length) (.ok .halted) m ∧
            m.console.output.toList = message ∧ m.registers.x = message.length ∧ m.registers.sw = 0 := by
  obtain ⟨l, hassembled⟩ := assembled hascii hleast hmost
  obtain ⟨image, hencode, hdecode⟩ := hassembled.image
  refine ⟨_, image, assemble_eq_ok_iff.mpr ⟨l, _, 0, hassembled, rfl⟩, hencode, ?_⟩
  intro base
  constructor
  · have hhighest : ∀ u ∈ body message ++ [last message], u.label ≠ none → u.location ≤ 15 + message.length := by
      simp [body, last]
    rw [hassembled.exists_loadImage_iff hdecode (get_mem_body _ 2) rfl (get_mem_body _ 6) rfl hhighest (by decide)]
    show base + (15 + message.length + 3) ≤ 0x1000000 ∧ base + (15 + message.length) ≤ 0x7FFF ↔ _
    omega
  · intro program memory hload input
    obtain ⟨hloaded, hterminal, hstart⟩ := hassembled.loaded_image hdecode (by decide) hload
    have hcode := code_of_loaded hassembled hloaded
    have hspace := hcode.space
    have hstop := hcode.stop
    have hstart : program.start memory { input } = loading memory base input 0 0 0 #[] := hstart (by omega) _
    obtain ⟨m, hstops, hprinted⟩ := prints_message hcode hmost input hleast
    rw [Program.run, hstart, hterminal]
    exact ⟨m, run_of_runFor hstops.ended (by simp), hstops, hprinted⟩

/-- A quote, a comment's mark and a line feed. -/
theorem awkward_message_printed :
    source [39, 35, 10] = "LOOP   START  0000\nFIRST  LDCH   MSG,X\n       WD\n       TIX    LEN\n" ++
      "       JLT    FIRST\n       HLT\nMSG    BYTE   c'\\'#\\n'\nLEN    WORD   3\n       END    FIRST\n" ∧
    ∃ image program memory m, loadImage (.zeroed Memory.addressSpace) image 0x500 = (.ok program, memory) ∧
      program.run memory {} none = (.ok .halted, m) ∧
      (program.start memory {}).Stops program.terminal 12 (.ok .halted) m ∧
      m.console.output.toList = [39, 35, 10] ∧ m.registers.x = 3 ∧ m.registers.sw = 0 := by
  obtain ⟨_, image, -, -, hall⟩ := message_printed [39, 35, 10] (by decide) (by decide) (by simp)
  obtain ⟨hloads, hruns⟩ := hall 0x500
  obtain ⟨program, memory, hload⟩ := hloads.mpr (by decide)
  obtain ⟨m, hrun⟩ := hruns program memory hload []
  exact ⟨by decide +kernel, image, program, memory, m, hload, hrun⟩

end Tribyte.MessageLoop
