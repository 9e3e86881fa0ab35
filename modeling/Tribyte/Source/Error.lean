import Tribyte.Source.Literal

/-! What is wrong with a source text. Each error knows the line it stands on, except that of a text with too
few statements. -/
namespace Tribyte

open Text

/-- What is wrong with a statement's operand, or with the address it leads to. -/
inductive OperandFault where
  | missing
  | invalidReference (text : String)
  | startWithoutName
  | invalidStart (text : String)
  | invalidEntry (text : String)
  | invalidCount (text : String)
  | reservationTooLarge (count : Nat)
  | literal (fault : Literal.Fault)
  | byteCount (count : Nat)
  | counterOverflow (counter : Nat)
  | addressTooLarge (address : Nat) (symbol : String)
  deriving DecidableEq, Repr

def OperandFault.message : OperandFault → String
  | missing => "an operand is required"
  | invalidReference text => "invalid operand " ++ Quoted.string text ++ ", expected LABEL or LABEL,X"
  | startWithoutName => "START requires a program name label"
  | invalidStart text => "invalid start address " ++ Quoted.string text ++ ", expected 4 hex digits"
  | invalidEntry text => "invalid execution address " ++ Quoted.string text
  | invalidCount text => "invalid count " ++ Quoted.string text ++ ", expected a decimal number"
  | reservationTooLarge count => s!"reservation of {count} exceeds the address space"
  | literal fault => fault.message
  | byteCount count => s!"BYTE literal is {count} bytes, expected 1 to 30"
  | counterOverflow counter =>
    "location counter " ++ Hexadecimal.marked 1 counter ++ " overflows 24 bits"
  | addressTooLarge address symbol =>
    "address " ++ Hexadecimal.marked 1 address ++ " of " ++ symbol ++ " does not fit in 15 bits"

inductive SourceError where
  /-- A line with no or more than three fields. -/
  | shape (line : Nat) (fields : List String)
  | unknownOperation (line : Nat) (name : String)
  | invalidLabel (line : Nat) (label : String)
  | duplicateLabel (line : Nat) (label : String) (first : Nat)
  | operand (line : Nat) (mnemonic : String) (fault : OperandFault)
  | undefinedSymbol (line : Nat) (symbol : String)
  | tooFewStatements (count : Nat)
  | firstNotStart (line : Nat)
  | lastNotEnd (line : Nat)
  /-- START or END inside the program. -/
  | misplaced (line : Nat) (mnemonic : String)
  | noObjectCode (line : Nat) (mnemonic : String)
  deriving DecidableEq, Repr

namespace SourceError

def line? : SourceError → Option Nat
  | shape line _ | unknownOperation line _ | invalidLabel line _ | duplicateLabel line _ _
  | operand line _ _ | undefinedSymbol line _ | firstNotStart line | lastNotEnd line
  | misplaced line _ | noObjectCode line _ => some line
  | tooFewStatements _ => none

/-- The error without its line. -/
def description : SourceError → String
  | shape _ fields => "unrecognized statement " ++ Quoted.list fields
  | unknownOperation _ name => "unknown operation " ++ Quoted.string name
  | invalidLabel _ label =>
    "invalid label " ++ Quoted.string label
      ++ ", expected a letter followed by up to 5 letters or digits"
  | duplicateLabel _ label first => s!"label {label} already defined on line {first}"
  | operand _ mnemonic fault => mnemonic ++ ": " ++ fault.message
  | undefinedSymbol _ symbol => "undefined symbol " ++ symbol
  | tooFewStatements count =>
    s!"program has {count} statement(s); START, END and at least one more are required"
  | firstNotStart _ => "the first statement must be START"
  | lastNotEnd _ => "the last statement must be END"
  | misplaced _ mnemonic => mnemonic ++ " may only appear at the program boundary"
  | noObjectCode _ mnemonic => mnemonic ++ " produces no object code"

def message (e : SourceError) : String :=
  match e.line? with
  | some line => s!"line {line}: " ++ e.description
  | none => e.description

end SourceError

end Tribyte
