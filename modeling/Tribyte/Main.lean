import Tribyte.Command.Tool

/-! The command line: `asm`, `run` and `dump`, each with its own arguments.

A simulated program gets its input as it asks for it: a step that finds none changes nothing, so it is taken
again once there is more. -/
namespace Tribyte.Command

def FileError.ofIO : IO.Error → FileError
  | .noFileOrDirectory .. => .missing
  | .inappropriateType _ 20 _ => .notFolder
  | .inappropriateType _ 21 _ => .isFolder
  | .invalidArgument _ 36 _ => .nameTooLong
  | e => .other (toString e)

def loadFile (path : String) : IO (Except FileError (List UInt8)) := do
  try
    return .ok (← IO.FS.readBinFile path).toList
  catch e => return .error (.ofIO e)

def saveFile (path : String) (content : List UInt8) : IO (Except FileError Unit) := do
  try
    IO.FS.writeBinFile path content.toByteArray
    return .ok ()
  catch e => return .error (.ofIO e)

/-- The files that a command names, read beforehand. -/
def loadFiles (paths : List String) : IO ReadFile := do
  let contents ← paths.mapM fun path => return (path, ← loadFile path)
  return fun path => (contents.lookup path).getD (.error .missing)

def sendOutput (bytes : ByteArray) : IO Unit := do
  let stdout ← IO.getStdout
  stdout.write bytes
  stdout.flush

/-- Carry out a job and give its exit code. -/
def perform (job : Job) : IO UInt32 := do
  let saved ← match job.ending with
    | .save path content _ => saveFile path content
    | _ => pure (.ok ())
  let outcome := job.outcome saved
  sendOutput outcome.output.toByteArray
  IO.eprint outcome.messages
  return outcome.code.toUInt32

/-- Run a machine that has taken `steps` steps, with the console on standard input and output. -/
partial def drive (session : Simulator.Session) (steps : Nat) (m : Machine) :
    IO (Except Trap Halt × Machine) := do
  if session.settings.stepLimit.any (· ≤ steps) then
    return (.error (.stepLimit steps), m)
  let (result, m) := m.turn session.program.terminal
  unless m.console.output.isEmpty do
    sendOutput m.console.output.toList.toByteArray
  let m := { m with console := { m.console with output := #[] } }
  match result with
  | none => drive session (steps + 1) m
  | some (.error (.noInput pc)) =>
    let bytes ← (← IO.getStdin).read 1
    if bytes.isEmpty then return (.error (.noInput pc), m)
    else drive session steps { m with console := { m.console with input := bytes.toList } }
  | some result => return (result, m)

def simulate (options : Simulator.Options) : IO UInt32 := do
  match Simulator.prepare options (← loadFiles (options.object :: options.settings.toList)) with
  | .error job => perform job
  | .ok session =>
    IO.eprint session.opening
    let (result, m) ← drive session 0 (session.machine [])
    perform (session.closing result m.registers)

end Tribyte.Command

open Tribyte.Command in
def main (arguments : List String) : IO UInt32 := do
  match arguments with
  | "asm" :: rest =>
    match Assembler.Options.ofArguments rest with
    | .error e => perform (usageJob e)
    | .ok options =>
      match Assembler.job options (← loadFiles [options.source]) with
      | .ok job | .error job => perform job
  | "run" :: rest =>
    match Simulator.Options.ofArguments rest with
    | .error e => perform (usageJob e)
    | .ok options => simulate options
  | "dump" :: rest =>
    match Inspector.Options.ofArguments rest with
    | .error e => perform (usageJob e)
    | .ok options => perform (Inspector.job options (← loadFiles [options.object]))
  | name :: _ => perform (usageJob (.unknownCommand name))
  | [] => perform (usageJob (.missingOperand "<asm|run|dump>"))
