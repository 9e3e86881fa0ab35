import Tribyte.Object.Image
import Tribyte.Object.Listing
import Tribyte.Text.Json

/-! Object files as a whole: their records, and how many bytes are left behind them. -/
namespace Tribyte

open Text

structure ObjectFile where
  records : List Record
  trailing : Nat
  deriving DecidableEq, Repr

namespace ObjectFile

def ofImage (image : List UInt8) : ObjectFile :=
  let reader := Reader.ofImage image
  { records := reader.records, trailing := reader.last.rest.length }

/-- Name, start and length from the first header. -/
def header? (file : ObjectFile) : Option (String × Nat × Nat) :=
  file.records.findSome? fun
    | .header name start length => some (name, start, length)
    | _ => none

/-- Addresses that modification records name. -/
def relocations (file : ObjectFile) : List Nat :=
  file.records.filterMap fun
    | .modification address _ => some address
    | _ => none

def recordLines (file : ObjectFile) : List String := file.records.map Record.line

/-- The disassembled text records. -/
def code (file : ObjectFile) : List CodeLine :=
  file.records.flatMap fun
    | .text start payload => disassemble start payload
    | _ => []

/-- A line of the disassembly. A star marks an instruction whose address field is relocated. -/
def codeLine (relocations : List Nat) (showBytes : Bool) (line : CodeLine) : String :=
  let mark := if relocations.contains (line.address + 1) then "*" else " "
  let bytes := if showBytes then " " ++ Column.left 9 (Hexadecimal.bytes " " line.bytes) else ""
  Hexadecimal.upper 6 line.address ++ ":" ++ bytes ++ mark ++ " " ++ line.text

def codeLines (file : ObjectFile) (showBytes : Bool) : List String :=
  file.code.map (codeLine file.relocations showBytes)

end ObjectFile

def Record.json : Record → Json
  | header name start length =>
    .object [("Header",
      .object [("name", .string name), ("start", .number start), ("length", .number length)])]
  | text start payload =>
    .object [("Text",
      .object [("start", .number start),
        ("payload", .array (payload.map fun b => .number b.toNat))])]
  | modification address length =>
    .object [("Modification",
      .object [("address", .number address), ("length", .number length.toNat)])]
  | finish entry => .object [("End", .object [("exec", .number entry)])]

def ObjectFile.json (file : ObjectFile) : Json :=
  .object [("records", .array (file.records.map Record.json)), ("trailing", .number file.trailing)]

end Tribyte
