import Tribyte.Command.Arguments
import Tribyte.Command.Report
import Tribyte.Object.File

/-! The inspector command: the records of an object file, or its disassembly. -/
namespace Tribyte.Command.Inspector

open Text

inductive View where
  | records (json : Bool)
  | disassembly (showBytes : Bool) (path : Option String)
  deriving DecidableEq, Repr

structure Options where
  object : String
  view : View
  deriving DecidableEq, Repr

def jsonOption : OptionSpec := { long := "json" }

def bytesOption : OptionSpec := { long := "show-bytes" }

def outOption : OptionSpec := { long := "out", placeholder := some "FILE" }

/-- The options after the name of the view are its own. -/
def View.ofArguments (name : String) (arguments : List String) : Except UsageError View := do
  if name = "records" then
    let arguments ← Arguments.ofList [jsonOption] arguments
    match arguments.operands with
    | [] => return .records (arguments.has jsonOption.long)
    | operand :: _ => throw (.unexpected operand)
  else if name = "disasm" then
    let arguments ← Arguments.ofList [bytesOption, outOption] arguments
    match arguments.operands with
    | [] => return .disassembly (arguments.has bytesOption.long) (arguments.value? outOption.long)
    | operand :: _ => throw (.unexpected operand)
  else throw (.unknownCommand name)

def Options.ofArguments : List String → Except UsageError Options
  | [] => .error (.missingOperand "<OBJFILE>")
  | [_] => .error (.missingOperand "<COMMAND>")
  | object :: name :: rest =>
    if Arguments.isOperand object then
      (View.ofArguments name rest).map fun view => { object, view }
    else .error (.unexpected object)

def recordText (file : ObjectFile) : String :=
  String.join (file.recordLines.map (· ++ "\n"))
    ++ if 0 < file.trailing then s!"({file.trailing} trailing byte(s) not decoded)\n" else ""

def headerLine : String × Nat × Nat → String
  | (name, start, length) =>
    "; " ++ name ++ " start " ++ Hexadecimal.upper 6 start ++ " length " ++ Hexadecimal.upper 6 length
      ++ "\n"

def codeText (file : ObjectFile) (showBytes : Bool) : String :=
  file.header?.elim "" headerLine ++ String.join ((file.codeLines showBytes).map (· ++ "\n"))

def viewJob (file : ObjectFile) : View → Job
  | .records true => { output := (file.json.print ++ "\n").toUTF8.toList }
  | .records false => { output := (recordText file).toUTF8.toList }
  | .disassembly showBytes none => { output := (codeText file showBytes).toUTF8.toList }
  | .disassembly showBytes (some path) =>
    { ending := .save path (codeText file showBytes).toUTF8.toList none }

def job (options : Options) (read : ReadFile) : Job :=
  match read options.object with
  | .error e => .fail e.message
  | .ok image =>
    let file := ObjectFile.ofImage image
    if file.records = [] then .fail (options.object ++ " holds no object records")
    else viewJob file options.view

end Tribyte.Command.Inspector
