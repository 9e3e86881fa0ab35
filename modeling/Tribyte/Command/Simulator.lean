import Tribyte.Command.Arguments
import Tribyte.Command.Report
import Tribyte.Command.Settings
import Tribyte.Loading
import Tribyte.Machine.Run
import Tribyte.Text.Json

/-! The simulator command: an object file is loaded and run.

`prepare` goes up to the first step, `Session.closing` reports the end of a run; what lies between them is
`Machine.run`. -/
namespace Tribyte.Command.Simulator

open Text

structure Options where
  object : String
  base : Nat := 0
  stepLimit : Option Nat := none
  settings : Option String := none
  dumpRegisters : Bool := false
  deriving DecidableEq, Repr

def baseOption : OptionSpec := { long := "base", short := some 'b', placeholder := some "BASE" }

def limitOption : OptionSpec := { long := "max-steps", placeholder := some "MAX_STEPS" }

def settingsOption : OptionSpec := { long := "config", placeholder := some "FILE" }

def registersOption : OptionSpec := { long := "dump-regs" }

def Options.ofArguments (arguments : List String) : Except UsageError Options := do
  let arguments ←
    Arguments.ofList [baseOption, limitOption, settingsOption, registersOption] arguments
  let base ← arguments.number? baseOption readAddressValue fun value fault =>
    "bad address " ++ Quoted.string value ++ ": " ++ fault.message
  let stepLimit ← arguments.number? limitOption
    (fun value => Numeral.bounded .decimal Numeral.greatest64 value.toList) fun _ fault => fault.message
  return {
    object := ← arguments.operand "<OBJFILE>"
    base := base.getD 0
    stepLimit
    settings := arguments.value? settingsOption.long
    dumpRegisters := arguments.has registersOption.long }

/-- The step limit where neither option nor settings file gives one. -/
def defaultLimit : Nat := 10000000

def readSettings (options : Options) (read : ReadFile) : Except Job Settings := do
  let settings ← match options.settings with
    | none => pure { stepLimit := some defaultLimit }
    | some path =>
      let text ← readingFile path (readText read path)
      match Settings.read? text with
      | some settings => pure settings
      | none => throw { ending := .refused 1 ("Error: parsing " ++ path) }
  return { settings with stepLimit := options.stepLimit <|> settings.stepLimit }

/-- A loaded program, ready to run. -/
structure Session where
  settings : Settings
  program : Program
  memory : Memory
  dumpRegisters : Bool

def prepare (options : Options) (read : ReadFile) : Except Job Session := do
  let settings ← readSettings options read
  let image ← readingFile options.object (read options.object)
  match loadImage (.zeroed settings.memorySize) image options.base with
  | (.error e, _) =>
    throw (.fail ("loading " ++ options.object) (e.message :: (e.cause?.map (·.message)).toList))
  | (.ok program, memory) =>
    return { settings, program, memory, dumpRegisters := options.dumpRegisters }

namespace Session

def machine (session : Session) (input : List UInt8) : Machine :=
  .boot session.memory session.program.entry input

/-- What is said before the first step. -/
def opening (session : Session) : String :=
  "Exec address: " ++ Hexadecimal.upper 6 session.program.entry ++ ", Terminal address: "
    ++ Hexadecimal.upper 6 session.program.terminal ++ "\n"

def registersJson (session : Session) (r : Registers) : Json :=
  .object [
    ("a", .number r.a), ("x", .number r.x), ("l", .number r.l), ("pc", .number r.pc),
    ("sw", .number r.sw), ("s", .number r.s),
    ("cfg", .object [
      ("memory_size", .number session.settings.memorySize),
      ("max_steps", session.settings.stepLimit.elim .null .number)])]

/-- What is said after the last step. -/
def closing (session : Session) (result : Except Trap Halt) (r : Registers) : Job :=
  let registers := if session.dumpRegisters then (session.registersJson r).print ++ "\n" else ""
  match result with
  | .ok halt => { messages := registers ++ "Stopped: " ++ halt.name ++ "\n" }
  | .error trap =>
    let causes := match trap with
      | .bus _ cause => [cause.message]
      | .device _ message => [message]
      | _ => []
    { messages := registers, ending := .failed { message := trap.message, causes } }

/-- The whole session as one job. -/
def job (session : Session) (input : List UInt8) : Job :=
  let (result, m) := (session.machine input).run session.program.terminal session.settings.stepLimit
  let job := session.closing result m.registers
  { job with output := m.console.output.toList, messages := session.opening ++ job.messages }

end Session

end Tribyte.Command.Simulator
