import Tribyte.Instruction.Opcode
import Tribyte.LittleEndian
import Tribyte.Text.Column
import Tribyte.Text.Hexadecimal

/-! Instructions as three bytes and as text.

The code comes first; the two bytes after it hold a 15-bit address, low byte first, under an index
flag. `decode?_pack` says that the bytes of an instruction give it back. -/
namespace Tribyte

open Text

structure Instruction where
  opcode : Opcode
  indexed : Bool
  address : Nat
  deriving DecidableEq, Repr

namespace Instruction

/-- Bytes of every instruction. -/
def size : Nat := 3

/-- Bytes of the address field that follows the code. -/
def fieldSize : Nat := 2

/-- Weight of the index flag in the address field. -/
def indexFlag : Nat := 0x8000

/-- The greatest address that an instruction can hold. -/
def greatestAddress : Nat := 0x7FFF

/-- Three bytes from any code. The address is cut to 15 bits. -/
def pack (code : UInt8) (address : Nat) (indexed : Bool) : List UInt8 :=
  code :: LittleEndian.encode fieldSize (address % indexFlag + if indexed then indexFlag else 0)

def encode (i : Instruction) : List UInt8 := pack i.opcode.code i.address i.indexed

/-- The instruction at the head of `bytes`: `none` where fewer than three are left or the first is no
code. -/
def decode? : List UInt8 → Option Instruction
  | code :: low :: high :: _ => (Opcode.ofCode? code).map fun opcode =>
      let field := LittleEndian.decode [low, high]
      { opcode, indexed := indexFlag ≤ field, address := field % indexFlag }
  | _ => none

/-- The mnemonic alone where it needs no operand and the address field is clear; otherwise the mnemonic
in five columns and the address. -/
def text (i : Instruction) : String :=
  if !i.opcode.needsOperand && i.address == 0 && !i.indexed then i.opcode.mnemonic
  else
    Column.left 5 i.opcode.mnemonic ++ " " ++ Hexadecimal.marked 4 i.address
      ++ if i.indexed then ",X" else ""

@[simp] theorem length_pack (code : UInt8) (address : Nat) (indexed : Bool) :
    (pack code address indexed).length = size := by
  simp [pack, fieldSize, size]

theorem decode?_pack (opcode : Opcode) {address : Nat} (h : address ≤ greatestAddress) (indexed : Bool)
    (rest : List UInt8) :
    decode? (pack opcode.code address indexed ++ rest) = some ⟨opcode, indexed, address⟩ := by
  have field (n : Nat) (hn : n < 65536) :
      LittleEndian.decode [n.toUInt8, (n / 256).toUInt8] = n := by
    have := LittleEndian.decode_encode fieldSize n
    simpa [LittleEndian.encode, LittleEndian.bound, fieldSize, Nat.mod_eq_of_lt hn] using this
  have small : address < 32768 := Nat.lt_succ_of_le h
  cases indexed
  · simp only [pack, fieldSize, LittleEndian.encode, List.cons_append, List.nil_append, decode?,
      Opcode.ofCode?_code, Option.map_some, indexFlag, Nat.mod_eq_of_lt small]
    rw [field _ (by simp; omega)]
    simp [Nat.mod_eq_of_lt small]
    omega
  · simp only [pack, fieldSize, LittleEndian.encode, List.cons_append, List.nil_append, decode?,
      Opcode.ofCode?_code, Option.map_some, indexFlag, Nat.mod_eq_of_lt small]
    rw [field _ (by simp; omega)]
    simp [Nat.mod_eq_of_lt small]

end Instruction

end Tribyte
