import Tribyte.Instruction.Form
import Tribyte.Object.Record

/-! Listings: records as lines of text, and payloads as disassembled lines. -/
namespace Tribyte

open Text

/-- One line for a record: its letter and its fields. -/
def Record.line : Record → String
  | header name start length =>
    "H " ++ Column.left 6 name ++ " " ++ Hexadecimal.upper 6 start ++ " " ++ Hexadecimal.upper 6 length
  | text start payload =>
    "T " ++ Hexadecimal.upper 6 start ++ " " ++ Hexadecimal.upper 2 payload.length ++ " "
      ++ Hexadecimal.bytes " " payload
  | modification address length =>
    "M " ++ Hexadecimal.upper 6 address ++ " " ++ Hexadecimal.upper 2 length.toNat
  | finish entry => "E " ++ Hexadecimal.upper 6 entry

/-- Some bytes at an address, and what they say. -/
structure CodeLine where
  address : Nat
  bytes : List UInt8
  text : String
  deriving DecidableEq, Repr

namespace CodeLine

/-- A byte that stands for itself. -/
def ofByte (address : Nat) (b : UInt8) : CodeLine :=
  ⟨address, [b], "BYTE  " ++ Hexadecimal.marked 2 b.toNat⟩

end CodeLine

/-- The payload at `address` as lines: an instruction where three bytes are left and the first is a code,
otherwise one byte. -/
def disassemble (address : Nat) : List UInt8 → List CodeLine
  | [] => []
  | code :: low :: high :: rest =>
    match Instruction.decode? [code, low, high] with
    | some i => ⟨address, [code, low, high], i.text⟩ :: disassemble (address + 3) rest
    | none => .ofByte address code :: disassemble (address + 1) (low :: high :: rest)
  | b :: rest => .ofByte address b :: disassemble (address + 1) rest

end Tribyte
