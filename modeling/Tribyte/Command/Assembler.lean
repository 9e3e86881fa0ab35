import Tribyte.Assembly.ObjectCode
import Tribyte.Command.Arguments
import Tribyte.Command.Report
import Tribyte.Object.Image

/-! The assembler command: a source file becomes an object file. -/
namespace Tribyte.Command.Assembler

open Text

structure Options where
  source : String
  object : String := "output.obj"
  symbols : Bool := false
  deriving DecidableEq, Repr

def outputOption : OptionSpec := { long := "output", short := some 'o', placeholder := some "OUTPUT" }

def symbolsOption : OptionSpec := { long := "symbols" }

def Options.ofArguments (arguments : List String) : Except UsageError Options := do
  let arguments ← Arguments.ofList [outputOption, symbolsOption] arguments
  return {
    source := ← arguments.operand "<SRCFILE>"
    object := (arguments.value? outputOption.long).getD "output.obj"
    symbols := arguments.has symbolsOption.long }

def symbolLine : String × Nat → String
  | (name, address) => Column.left 6 name ++ " " ++ Hexadecimal.upper 6 address ++ "\n"

def symbolListing (symbols : SymbolTable) : String :=
  if symbols.isEmpty then "(no symbols)\n" else String.join (symbols.sorted.map symbolLine)

/-- Symbols are listed as soon as they are known, whatever becomes of the object code. -/
def job (options : Options) (read : ReadFile) : Except Job Job := do
  let text ← readingFile options.source (readText read options.source)
  let assembling := "assembling " ++ options.source
  match Layout.ofLines (sourceLines text) with
  | .error e => throw (.fail assembling [e.message])
  | .ok layout =>
    let messages := if options.symbols then symbolListing layout.symbols else ""
    match layout.records with
    | .error e => throw { Job.fail assembling [e.message] with messages }
    | .ok records =>
      match encodeImage records with
      | .error e => throw { Job.fail e.message with messages }
      | .ok image =>
        return { messages, ending := .save options.object image ("writing " ++ options.object) }

end Tribyte.Command.Assembler
