import Tribyte.Proofs.Assembly.Formatting
import Tribyte.Proofs.Programs.Code

/-! A program that echoes one line.

It reads a byte, writes it and starts again, until the byte was a line feed. A round with another byte takes five steps
(`goes_round`), the one with a line feed halts (`stops_at_lineFeed`), and the end of the input traps (`stops_starved`).
So the program writes its input up to the first line feed and reads no further (`echoes_one_line`). -/
namespace Tribyte.LineEcho

open Text Machine

def source : String :=
  "ECHO   START  0000\nNEXT   RD\n       WD\n       COMP   NL\n       JEQ    DONE\n       J      NEXT\n" ++
    "DONE   HLT\nNL     WORD   10\n       END    NEXT\n"

/-! ### Its lines -/

def lines : List (List Char) := [
  "ECHO   START  0000".toList,
  "NEXT   RD".toList,
  "       WD".toList,
  "       COMP   NL".toList,
  "       JEQ    DONE".toList,
  "       J      NEXT".toList,
  "DONE   HLT".toList,
  "NL     WORD   10".toList,
  "       END    NEXT".toList,
  []]

theorem source_eq : source = textOf lines := by
  have hfront :
      "ECHO   START  0000\nNEXT   RD\n       WD\n       COMP   NL\n       JEQ    DONE\n       J      NEXT\n".toList =
        ['\n'].intercalate (lines.take 6 ++ [[]]) := String.toList_ofList
  have hback : "DONE   HLT\nNL     WORD   10\n       END    NEXT\n".toList = ['\n'].intercalate (lines.drop 6) :=
    String.toList_ofList
  apply String.toList_inj.mp
  rw [textOf, String.toList_ofList]
  unfold source
  rw [String.toList_append, hfront, hback]
  rfl

theorem sourceLines_source :
    sourceLines source = [⟨1, ["ECHO", "START", "0000"]⟩, ⟨2, ["NEXT", "RD"]⟩, ⟨3, ["WD"]⟩, ⟨4, ["COMP", "NL"]⟩,
      ⟨5, ["JEQ", "DONE"]⟩, ⟨6, ["J", "NEXT"]⟩, ⟨7, ["DONE", "HLT"]⟩, ⟨8, ["NL", "WORD", "10"]⟩,
      ⟨9, ["END", "NEXT"]⟩] := by
  rw [source_eq, sourceLines_textOf (by simp [lines])]
  rfl

/-! ### Its statements -/

def first : Statement := ⟨"START", .directive .start, 0, 1, some "ECHO", some "0000", .start "ECHO" 0⟩

def body : List Statement := [
  ⟨"RD", .opcode .rd, 0, 2, some "NEXT", none, .instruction none false⟩,
  ⟨"WD", .opcode .wd, 3, 3, none, none, .instruction none false⟩,
  ⟨"COMP", .opcode .comp, 6, 4, none, some "NL", .instruction (some "NL") false⟩,
  ⟨"JEQ", .opcode .jeq, 9, 5, none, some "DONE", .instruction (some "DONE") false⟩,
  ⟨"J", .opcode .j, 12, 6, none, some "NEXT", .instruction (some "NEXT") false⟩,
  ⟨"HLT", .opcode .hlt, 15, 7, some "DONE", none, .instruction none false⟩,
  ⟨"WORD", .directive .word, 18, 8, some "NL", some "10", .word 10⟩]

theorem get_mem_body (k : Fin 7) : body.get k ∈ body := List.get_mem body k

def last : Statement := ⟨"END", .directive .finish, 21, 9, none, some "NEXT", .finish (some "NEXT") none⟩

theorem listed : Listed 0 (sourceLines source) (first :: (body ++ [last])) := by
  rw [sourceLines_source]
  exact .cons rfl (.cons rfl (.cons rfl (.cons rfl (.cons rfl (.cons rfl (.cons rfl (.cons rfl (.cons rfl .nil))))))))

theorem isProgram : IsProgram (first :: (body ++ [last])) where
  bounded := by decide
  distinct := by simp [first, body, last]
  framed := ⟨first, body, last, rfl, List.cons_ne_nil _ _, rfl, rfl, by decide⟩
  resolved := by simp [first, body, last, Instruction.greatestAddress]
  entry := by simp [first, body, last]

theorem assembled : ∃ l, Assembled source l ⟨"ECHO", 0, body, last⟩ 0 :=
  listed.exists_assembled isProgram rfl rfl (get_mem_body 0) rfl

/-! ### Its code -/

/-- The program in memory at `base`. -/
structure Code (memory : Memory) (base : Nat) : Prop where
  read : memory.Holds base ⟨.rd, false, 0⟩
  write : memory.Holds (base + 3) ⟨.wd, false, 0⟩
  compare : memory.Holds (base + 6) ⟨.comp, false, base + 18⟩
  finish : memory.Holds (base + 9) ⟨.jeq, false, base + 15⟩
  again : memory.Holds (base + 12) ⟨.j, false, base⟩
  halt : memory.Holds (base + 15) ⟨.hlt, false, 0⟩
  lineFeed : memory.read 3 (base + 18) = .ok 10
  space : base + 21 ≤ Word.modulus

theorem code_of_loaded {l : Layout} {base : Nat} {memory : Memory}
    (hassembled : Assembled source l ⟨"ECHO", 0, body, last⟩ 0)
    (h : Loaded l ⟨"ECHO", 0, body, last⟩ base (.zeroed Memory.addressSpace) memory) : Code memory base := by
  constructor
  case read => exact h.holds hassembled (get_mem_body 0) rfl rfl rfl
  case write => exact h.holds hassembled (get_mem_body 1) rfl rfl rfl
  case compare => exact h.holds_symbolic hassembled (get_mem_body 2) rfl rfl (get_mem_body 6) rfl
  case finish => exact h.holds_symbolic hassembled (get_mem_body 3) rfl rfl (get_mem_body 5) rfl
  case again => exact h.holds_symbolic hassembled (get_mem_body 4) rfl rfl (get_mem_body 0) rfl
  case halt => exact h.holds hassembled (get_mem_body 5) rfl rfl rfl
  case lineFeed => exact h.read_word hassembled (get_mem_body 6) rfl rfl
  case space => exact h.inside_last hassembled

/-! ### Its rounds -/

/-- The program about to read, with what the round before has left in A and in the status word. -/
def reading (memory : Memory) (base a sw : Nat) (input : List UInt8) (output : Array UInt8) : Machine :=
  { registers := { a, pc := base, sw }, memory, console := { input, output } }

section Running

variable {memory : Memory} {base : Nat} (hcode : Code memory base)
include hcode

/-- The steps up to the jump that asks for a line feed. -/
theorem echoes_byte (a sw : Nat) (b : UInt8) (rest : List UInt8) (output : Array UInt8) :
    ∃ status, (status = 0 ↔ b = 10) ∧
      (reading memory base a sw (b :: rest) output).runFor (base + 21) 3 =
        (none, (reading memory base b.toNat status rest (output.push b)).withPc (base + 9)) := by
  have hspace := hcode.space
  have hnext (k : Nat) (hk : k + 3 < 21) : base + k + 3 < base + 21 := by omega
  have hread : (reading memory base a sw (b :: rest) output).turn (base + 21) =
      (none, (reading memory base b.toNat sw rest output).withPc (base + 3)) :=
    turn_rd (hnext 0 (by decide)) hspace hcode.read rfl rfl
  have hwrite : ((reading memory base b.toNat sw rest output).withPc (base + 3)).turn (base + 21) =
      (none, (reading memory base b.toNat sw rest (output.push b)).withPc (base + 6)) :=
    turn_wd (hnext 3 (by decide)) hspace hcode.write rfl rfl
  obtain ⟨status, hequal, hcompare⟩ := turn_comp
    (m := (reading memory base b.toNat sw rest (output.push b)).withPc (base + 6)) (hnext 6 (by decide)) hspace
    hcode.compare hcode.lineFeed
  refine ⟨status, hequal.trans ?_, runFor_cons hread (runFor_cons hwrite (runFor_cons hcompare rfl))⟩
  have hb := b.toNat_lt
  show Word.signed b.toNat = Word.signed 10 ↔ b = 10
  rw [Word.signed_of_le (by omega), Word.signed_of_le (by decide), ← UInt8.toNat_inj]
  exact Int.ofNat_inj

/-- A byte that is no line feed leads back to the start. -/
theorem goes_round (a sw : Nat) {b : UInt8} (hb : b ≠ 10) (rest : List UInt8) (output : Array UInt8) :
    ∃ status, (reading memory base a sw (b :: rest) output).runFor (base + 21) 5 =
      (none, reading memory base b.toNat status rest (output.push b)) := by
  obtain ⟨status, hequal, hecho⟩ := echoes_byte hcode a sw b rest output
  have hpassed : ((reading memory base b.toNat status rest (output.push b)).withPc (base + 9)).turn (base + 21) =
      (none, (reading memory base b.toNat status rest (output.push b)).withPc (base + 12)) := by
    refine turn_passed (Nat.add_lt_add_left (show 12 < 21 by decide) base) hcode.space hcode.finish rfl ?_
    rw [Registers.holds_equal]
    exact mt hequal.mp hb
  have hagain : ((reading memory base b.toNat status rest (output.push b)).withPc (base + 12)).turn (base + 21) =
      (none, reading memory base b.toNat status rest (output.push b)) :=
    turn_taken hcode.again rfl rfl
  exact ⟨status, (runFor_trans hecho 2).trans (runFor_cons hpassed (runFor_cons hagain rfl))⟩

/-- A line feed ends the run. -/
theorem stops_at_lineFeed (a sw : Nat) (rest : List UInt8) (output : Array UInt8) :
    ∃ m, (reading memory base a sw (10 :: rest) output).Stops (base + 21) 4 (.ok .halted) m ∧
      m.console = { input := rest, output := output.push 10 } := by
  obtain ⟨status, hequal, hecho⟩ := echoes_byte hcode a sw 10 rest output
  have htaken :
      ((reading memory base (10 : UInt8).toNat status rest (output.push 10)).withPc (base + 9)).turn (base + 21) =
        (none, (reading memory base (10 : UInt8).toNat status rest (output.push 10)).withPc (base + 15)) := by
    refine turn_taken hcode.finish rfl ?_
    rw [Registers.holds_equal]
    exact hequal.mpr rfl
  have hdone := (runFor_trans hecho 1).trans (runFor_cons htaken rfl)
  exact ⟨_, .of_running hdone (stops_of_turn (turn_hlt hcode.halt)), rfl⟩

theorem stops_starved (a sw : Nat) (output : Array UInt8) :
    (reading memory base a sw [] output).Stops (base + 21) 0 (.error (.noInput base))
      (reading memory base a sw [] output) :=
  stops_of_turn (turn_rd_nil hcode.read rfl rfl)

/-- Bytes before the first line feed are echoed one by one. -/
theorem echoes_bytes (a sw : Nat) {line : List UInt8} (hline : 10 ∉ line) (rest : List UInt8) (output : Array UInt8) :
    ∃ a' sw', (reading memory base a sw (line ++ rest) output).runFor (base + 21) (5 * line.length) =
      (none, reading memory base a' sw' rest (output ++ line)) := by
  induction line generalizing a sw output with
  | nil => exact ⟨a, sw, rfl⟩
  | cons b line ih =>
    have hb : b ≠ 10 := (List.ne_of_not_mem_cons hline).symm
    obtain ⟨status, hround⟩ := goes_round hcode a sw hb (line ++ rest) output
    obtain ⟨a', sw', hrun⟩ := ih b.toNat status (List.not_mem_of_not_mem_cons hline) (output.push b)
    refine ⟨a', sw', ?_⟩
    rw [List.length_cons, Nat.mul_succ, Nat.add_comm (5 * _)]
    exact (runFor_trans hround _).trans hrun

/-! ### Its runs -/

theorem stops_behind_line {line : List UInt8} (hline : 10 ∉ line) (rest : List UInt8) :
    ∃ m, (reading memory base 0 0 (line ++ 10 :: rest) #[]).Stops (base + 21) (5 * line.length + 4) (.ok .halted) m ∧
      m.console.output.toList = line ++ [10] ∧ m.console.input = rest := by
  obtain ⟨a, sw, hrun⟩ := echoes_bytes hcode 0 0 hline (10 :: rest) #[]
  obtain ⟨m, hstops, hconsole⟩ := stops_at_lineFeed hcode a sw rest ((#[] : Array UInt8) ++ line)
  refine ⟨m, .of_running hrun hstops, ?_, ?_⟩
  · simp [hconsole]
  · rw [hconsole]

theorem stops_at_end {input : List UInt8} (hinput : 10 ∉ input) :
    ∃ m, (reading memory base 0 0 input #[]).Stops (base + 21) (5 * input.length) (.error (.noInput base)) m ∧
      m.console.output.toList = input := by
  obtain ⟨a, sw, hrun⟩ := echoes_bytes hcode 0 0 hinput [] #[]
  rw [List.append_nil] at hrun
  refine ⟨_, .of_running hrun (stops_starved hcode a sw _), ?_⟩
  simp [reading]

end Running

/-- Wherever the program is loaded, it writes its input up to the first line feed, halts and leaves the rest of the
input unread. Without a line feed it writes all of its input and traps where it reads. -/
theorem echoes_one_line :
    ∃ records image, assemble source = .ok records ∧ encodeImage records = .ok image ∧
      ∀ base,
        ((∃ program memory, loadImage (.zeroed Memory.addressSpace) image base = (.ok program, memory)) ↔
          base + 18 ≤ 0x7FFF) ∧
        ∀ program memory, loadImage (.zeroed Memory.addressSpace) image base = (.ok program, memory) → ∀ input,
          (10 ∈ input → ∃ line rest m, input = line ++ 10 :: rest ∧ 10 ∉ line ∧
            program.run memory { input } none = (.ok .halted, m) ∧ m.console.output.toList = line ++ [10] ∧
            m.console.input = rest) ∧
          (10 ∉ input → ∃ m, program.run memory { input } none = (.error (.noInput base), m) ∧
            m.console.output.toList = input) := by
  obtain ⟨l, hassembled⟩ := assembled
  obtain ⟨image, hencode, hdecode⟩ := hassembled.image
  refine ⟨_, image, assemble_eq_ok_iff.mpr ⟨l, _, 0, hassembled, rfl⟩, hencode, ?_⟩
  intro base
  constructor
  · rw [hassembled.exists_loadImage_iff hdecode (get_mem_body 2) rfl (get_mem_body 6) rfl (by decide) (by decide)]
    show base + 21 ≤ 0x1000000 ∧ base + 18 ≤ 0x7FFF ↔ _
    omega
  · intro program memory hload input
    obtain ⟨hloaded, hterminal, hstart⟩ := hassembled.loaded_image hdecode (by decide) hload
    have hcode := code_of_loaded hassembled hloaded
    have hspace := hcode.space
    have hstart : program.start memory { input } = reading memory base 0 0 input #[] := hstart (by omega) _
    have hterminal : program.terminal = base + 21 := hterminal
    rw [Program.run, hstart, hterminal]
    constructor
    · intro hmem
      obtain ⟨line, rest, rfl, hline⟩ := List.eq_append_cons_of_mem hmem
      obtain ⟨m, hstops, houtput, hrest⟩ := stops_behind_line hcode hline rest
      exact ⟨line, rest, m, rfl, hline, run_of_runFor hstops.ended (by simp), houtput, hrest⟩
    · intro hinput
      obtain ⟨m, hstops, houtput⟩ := stops_at_end hcode hinput
      exact ⟨m, run_of_runFor hstops.ended (by simp), houtput⟩

/-- Three bytes and a line feed, with more behind them, and one byte alone. -/
theorem echoes_line_at_base :
    ∃ image program memory m m', loadImage (.zeroed Memory.addressSpace) image 0x500 = (.ok program, memory) ∧
      program.run memory { input := [104, 101, 121, 10, 63, 10] } none = (.ok .halted, m) ∧
      m.console.output.toList = [104, 101, 121, 10] ∧ m.console.input = [63, 10] ∧
      program.run memory { input := [104] } none = (.error (.noInput 0x500), m') ∧
      m'.console.output.toList = [104] := by
  have hsplit (line rest : List UInt8) (hinput : [104, 101, 121, 10, 63, 10] = line ++ 10 :: rest)
      (hline : 10 ∉ line) : line = [104, 101, 121] ∧ rest = [63, 10] := by
    rcases line with _ | ⟨_, _ | ⟨_, _ | ⟨_, _ | ⟨_, line⟩⟩⟩⟩ <;> simp_all
  obtain ⟨_, image, -, -, hall⟩ := echoes_one_line
  obtain ⟨hloads, hruns⟩ := hall 0x500
  obtain ⟨program, memory, hload⟩ := hloads.mpr (by decide)
  obtain ⟨line, rest, m, hinput, hline, hrun, houtput, hrest⟩ :=
    (hruns program memory hload [104, 101, 121, 10, 63, 10]).1 (by decide)
  obtain ⟨m', hrun', houtput'⟩ := (hruns program memory hload [104]).2 (by decide)
  obtain ⟨rfl, rfl⟩ := hsplit line rest hinput hline
  exact ⟨image, program, memory, m, m', hload, hrun, houtput, hrest, hrun', houtput'⟩

end Tribyte.LineEcho
