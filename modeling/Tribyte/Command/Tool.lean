import Tribyte.Command.Assembler
import Tribyte.Command.Directory
import Tribyte.Command.Inspector
import Tribyte.Command.Simulator

/-! The three commands, run inside a directory. -/
namespace Tribyte.Command

inductive Tool where
  | assembler | simulator | inspector
  deriving DecidableEq, Repr

def usageJob (e : UsageError) : Job := { ending := .refused 2 e.message }

/-- The job of a tool. -/
def Tool.job (tool : Tool) (arguments : List String) (read : ReadFile) (input : List UInt8) : Job :=
  match tool with
  | .assembler =>
    match Assembler.Options.ofArguments arguments with
    | .error e => usageJob e
    | .ok options =>
      match Assembler.job options read with
      | .ok job | .error job => job
  | .simulator =>
    match Simulator.Options.ofArguments arguments with
    | .error e => usageJob e
    | .ok options =>
      match Simulator.prepare options read with
      | .error job => job
      | .ok session => session.job input
  | .inspector =>
    match Inspector.Options.ofArguments arguments with
    | .error e => usageJob e
    | .ok options => Inspector.job options read

/-- Run a tool in a directory: what is seen of it, and the directory after it. -/
def Tool.run (tool : Tool) (arguments : List String) (directory : Directory) (input : List UInt8) :
    Outcome × Directory :=
  directory.perform (tool.job arguments directory.read input)

end Tribyte.Command
