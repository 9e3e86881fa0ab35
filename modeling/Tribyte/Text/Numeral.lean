import Tribyte.Text.Hexadecimal

/-! Numbers as text: decimal numerals of any size, and bounded numerals that say why they fail. -/
namespace Tribyte.Text.Numeral

/-- The number that decimal digits spell, most significant first. -/
def value (cs : List Char) : Nat := cs.foldl (fun n c => 10 * n + (c.toNat - '0'.toNat)) 0

/-- One or more ASCII digits and nothing else. -/
def natural? (cs : List Char) : Option Nat :=
  if cs ≠ [] ∧ cs.all Char.isDigit then some (value cs) else none

/-- A natural number, optionally after one sign. -/
def integer? : List Char → Option Int
  | '-' :: cs => (natural? cs).map fun n => -(n : Int)
  | '+' :: cs => (natural? cs).map fun n => (n : Int)
  | cs => (natural? cs).map fun n => (n : Int)

/-- The greatest number of 32 bits. -/
def greatest32 : Nat := 0xFFFFFFFF

/-- The greatest number of 64 bits. -/
def greatest64 : Nat := 0xFFFFFFFFFFFFFFFF

/-- Why a text is no bounded numeral. -/
inductive Fault where
  | empty | invalidDigit | tooLarge
  deriving DecidableEq, Repr

def Fault.message : Fault → String
  | empty => "cannot parse integer from empty string"
  | invalidDigit => "invalid digit found in string"
  | tooLarge => "number too large to fit in target type"

inductive Radix where
  | decimal | hexadecimal
  deriving DecidableEq, Repr

namespace Radix

def toNat : Radix → Nat
  | decimal => 10
  | hexadecimal => 16

def isDigit : Radix → Char → Bool
  | decimal => Char.isDigit
  | hexadecimal => Hexadecimal.isDigit

end Radix

/-- Digits up to `limit`, read from the left after those worth `n`; the first fault met is reported. -/
def digits (radix : Radix) (limit : Nat) : (n : Nat) → List Char → Except Fault Nat
  | n, [] => .ok n
  | n, c :: cs =>
    if radix.isDigit c then
      let next := radix.toNat * n + Hexadecimal.digitValue c
      if next ≤ limit then digits radix limit next cs else .error .tooLarge
    else .error .invalidDigit

/-- A numeral up to `limit`. One leading plus sign is accepted where a digit follows. -/
def bounded (radix : Radix) (limit : Nat) : List Char → Except Fault Nat
  | [] => .error .empty
  | ['+'] => .error .invalidDigit
  | '+' :: cs => digits radix limit 0 cs
  | cs => digits radix limit 0 cs

end Tribyte.Text.Numeral
