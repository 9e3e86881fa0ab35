import Tribyte.Text.Blank
import Tribyte.Text.Numeral
import Tribyte.Text.Quoted

/-! Command-line arguments.

Options and operands come in any order. A value follows its option as the next argument or after `=`; a
short option may also have it attached. After `--` there are only operands. -/
namespace Tribyte.Command

open Text

/-- An option that a command knows. Those with a placeholder take a value. -/
structure OptionSpec where
  long : String
  short : Option Char := none
  placeholder : Option String := none
  deriving DecidableEq, Repr

/-- How the option is shown in messages. -/
def OptionSpec.display (spec : OptionSpec) : String :=
  match spec.placeholder with
  | some name => "--" ++ spec.long ++ " <" ++ name ++ ">"
  | none => "--" ++ spec.long

/-- Arguments by their roles. A flag has no value. -/
structure Arguments where
  options : List (String × Option String) := []
  operands : List String := []
  deriving DecidableEq, Repr

/-- Why arguments make no sense. -/
inductive UsageError where
  | unexpected (argument : String)
  | missingValue (option : String)
  | unexpectedValue (value option : String)
  | repeated (option : String)
  | missingOperand (name : String)
  | unknownCommand (name : String)
  | invalidValue (value option reason : String)
  deriving DecidableEq, Repr

def UsageError.message : UsageError → String
  | unexpected argument => "error: unexpected argument '" ++ argument ++ "' found"
  | missingValue option => "error: a value is required for '" ++ option ++ "' but none was supplied"
  | unexpectedValue value option =>
    "error: unexpected value '" ++ value ++ "' for '" ++ option ++ "' found; no more were expected"
  | repeated option => "error: the argument '" ++ option ++ "' cannot be used multiple times"
  | missingOperand name => "error: the following required arguments were not provided:\n  " ++ name
  | unknownCommand name => "error: unrecognized subcommand '" ++ name ++ "'"
  | invalidValue value option reason =>
    "error: invalid value '" ++ value ++ "' for '" ++ option ++ "': " ++ reason

namespace Arguments

/-- The option that an argument names, with the value attached to it. -/
def option? (specs : List OptionSpec) (argument : List Char) : Option (OptionSpec × Option String) :=
  match argument with
  | '-' :: '-' :: rest =>
    let name := String.ofList (rest.takeWhile (· ≠ '='))
    let value := match rest.dropWhile (· ≠ '=') with
      | _ :: value => some (String.ofList value)
      | [] => none
    (specs.find? (·.long = name)).map (·, value)
  | '-' :: c :: rest =>
    let value := match rest with
      | [] => none
      | '=' :: value => some (String.ofList value)
      | value => some (String.ofList value)
    (specs.find? (·.short = some c)).map (·, value)
  | _ => none

/-- Whether an argument is an operand by its looks. A lone dash is one. -/
def isOperand (argument : String) : Bool := !argument.startsWith "-" || argument = "-"

def addOption (known : Arguments) (spec : OptionSpec) (value : Option String) :
    Except UsageError Arguments :=
  if known.options.any (·.1 = spec.long) then .error (.repeated spec.display)
  else .ok { known with options := known.options ++ [(spec.long, value)] }

/-- Sort arguments after those already known. -/
def scan (specs : List OptionSpec) (known : Arguments) : List String → Except UsageError Arguments
  | [] => .ok known
  | argument :: rest =>
    if argument = "--" then .ok { known with operands := known.operands ++ rest }
    else if isOperand argument then
      scan specs { known with operands := known.operands ++ [argument] } rest
    else
      match option? specs argument.toList with
      | none => .error (.unexpected argument)
      | some (spec, value) =>
        match spec.placeholder, value with
        | none, none => do scan specs (← known.addOption spec none) rest
        | none, some value => .error (.unexpectedValue value spec.display)
        | some _, some value => do scan specs (← known.addOption spec (some value)) rest
        | some _, none =>
          match rest with
          | value :: rest =>
            if isOperand value then do scan specs (← known.addOption spec (some value)) rest
            else .error (.missingValue spec.display)
          | [] => .error (.missingValue spec.display)

def ofList (specs : List OptionSpec) (arguments : List String) : Except UsageError Arguments :=
  scan specs {} arguments

def has (arguments : Arguments) (long : String) : Bool := arguments.options.any (·.1 = long)

def value? (arguments : Arguments) (long : String) : Option String :=
  (arguments.options.lookup long).join

/-- The only operand. -/
def operand (arguments : Arguments) (name : String) : Except UsageError String :=
  match arguments.operands with
  | [] => .error (.missingOperand name)
  | [operand] => .ok operand
  | _ :: second :: _ => .error (.unexpected second)

end Arguments

/-! ### Numbers -/

/-- A 32-bit address: decimal, or hexadecimal after `0x` or `0X`. Blanks around it are ignored. -/
def readAddressValue (text : String) : Except Numeral.Fault Nat :=
  match trim text.toList with
  | '0' :: 'x' :: digits | '0' :: 'X' :: digits => Numeral.bounded .hexadecimal Numeral.greatest32 digits
  | digits => Numeral.bounded .decimal Numeral.greatest32 digits

/-- Read the value of an option, if it is given. -/
def Arguments.number? (arguments : Arguments) (spec : OptionSpec)
    (read : String → Except Numeral.Fault Nat) (reason : String → Numeral.Fault → String) :
    Except UsageError (Option Nat) :=
  match arguments.value? spec.long with
  | none => .ok none
  | some value =>
    match read value with
    | .ok n => .ok (some n)
    | .error fault => .error (.invalidValue value spec.display (reason value fault))

end Tribyte.Command
