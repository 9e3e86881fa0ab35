/-! The operations of the machine: mnemonic, code and effect of each opcode.

Codes are dense and follow the order of declaration. -/
namespace Tribyte

/-- Accumulator, index, linkage, program counter, status word and a general-purpose register. -/
inductive Register where
  | a | x | l | pc | sw | s
  deriving DecidableEq, Repr

inductive Width where
  | word | byte
  deriving DecidableEq, Repr

/-- When a jump is taken, by the outcome of the last comparison. -/
inductive Condition where
  | always | equal | less | greater
  deriving DecidableEq, Repr

/-- What an opcode does when executed. -/
inductive Effect where
  | load (register : Register) (width : Width)
  | store (register : Register) (width : Width)
  | compare (register : Register)
  /-- Add one to the index register and compare it. -/
  | countIndex
  | add
  | subtract
  | jump (condition : Condition)
  /-- Jump and leave the return address in the linkage register. -/
  | call
  /-- Jump to the linkage register; halt where it is zero. -/
  | leave
  | receive
  | send
  | halt
  | idle
  deriving DecidableEq, Repr

inductive Opcode where
  | lda | ldch | ldx | ldl | lds
  | sta | stch | stx | stl | sts
  | comp | tix | add | sub
  | j | jeq | jlt | jgt | jsub | rsub
  | rd | wd | hlt | nop
  deriving DecidableEq, Repr

namespace Opcode

def all : List Opcode :=
  [lda, ldch, ldx, ldl, lds, sta, stch, stx, stl, sts, comp, tix, add, sub,
   j, jeq, jlt, jgt, jsub, rsub, rd, wd, hlt, nop]

theorem mem_all (op : Opcode) : op ∈ all := by cases op <;> decide

def mnemonic : Opcode → String
  | lda => "LDA" | ldch => "LDCH" | ldx => "LDX" | ldl => "LDL" | lds => "LDS"
  | sta => "STA" | stch => "STCH" | stx => "STX" | stl => "STL" | sts => "STS"
  | comp => "COMP" | tix => "TIX" | add => "ADD" | sub => "SUB"
  | j => "J" | jeq => "JEQ" | jlt => "JLT" | jgt => "JGT" | jsub => "JSUB" | rsub => "RSUB"
  | rd => "RD" | wd => "WD" | hlt => "HLT" | nop => "NOP"

def code : Opcode → UInt8
  | lda => 0x00 | ldch => 0x01 | ldx => 0x02 | ldl => 0x03 | lds => 0x04
  | sta => 0x05 | stch => 0x06 | stx => 0x07 | stl => 0x08 | sts => 0x09
  | comp => 0x0A | tix => 0x0B | add => 0x0C | sub => 0x0D
  | j => 0x0E | jeq => 0x0F | jlt => 0x10 | jgt => 0x11 | jsub => 0x12 | rsub => 0x13
  | rd => 0x14 | wd => 0x15 | hlt => 0x16 | nop => 0x17

def effect : Opcode → Effect
  | lda => .load .a .word | ldch => .load .a .byte
  | ldx => .load .x .word | ldl => .load .l .word | lds => .load .s .word
  | sta => .store .a .word | stch => .store .a .byte
  | stx => .store .x .word | stl => .store .l .word | sts => .store .s .word
  | comp => .compare .a | tix => .countIndex | add => .add | sub => .subtract
  | j => .jump .always | jeq => .jump .equal | jlt => .jump .less | jgt => .jump .greater
  | jsub => .call | rsub => .leave | rd => .receive | wd => .send | hlt => .halt | nop => .idle

/-- Whether the assembler insists on an operand. The others still accept one. -/
def needsOperand : Opcode → Bool
  | rsub | rd | wd | hlt | nop => false
  | _ => true

def ofMnemonic? (name : String) : Option Opcode := all.find? (·.mnemonic == name)

def ofCode? (code : UInt8) : Option Opcode := all[code.toNat]?

theorem ofMnemonic?_mnemonic (op : Opcode) : ofMnemonic? op.mnemonic = some op := by
  cases op <;> decide

theorem ofCode?_code (op : Opcode) : ofCode? op.code = some op := by
  cases op <;> rfl

theorem code_of_ofCode? {c : UInt8} {op : Opcode} (h : ofCode? c = some op) : op.code = c := by
  obtain ⟨hlt, he⟩ := List.getElem?_eq_some_iff.1 h
  have dense : ∀ i : Fin all.length, (all.get i).code.toNat = i := by decide
  apply UInt8.toNat_inj.1
  rw [← he]
  exact dense ⟨_, hlt⟩

end Opcode

end Tribyte
