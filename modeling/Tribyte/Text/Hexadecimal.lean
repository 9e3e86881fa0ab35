/-! Hexadecimal text: numbers padded with zeros to a least number of digits, and the reading of digits. -/
namespace Tribyte.Text.Hexadecimal

/-- At least `width` digits, in lower case. -/
def lower (width n : Nat) : String := String.ofList ((Nat.toDigits 16 n).leftpad width '0')

/-- At least `width` digits, in upper case. -/
def upper (width n : Nat) : String :=
  String.ofList (((Nat.toDigits 16 n).leftpad width '0').map Char.toUpper)

/-- At least `width` digits in lower case after the mark `0x`. -/
def marked (width n : Nat) : String := "0x" ++ lower width n

/-- One byte in two lower-case digits. -/
def byte (b : UInt8) : String := lower 2 b.toNat

/-- Bytes in two digits each, with `gap` between neighbours. -/
def bytes (gap : String) (bs : List UInt8) : String := gap.intercalate (bs.map byte)

/-- Digits are ASCII only, in either case. -/
def isDigit (c : Char) : Bool :=
  c.isDigit || ('a' ≤ c && c ≤ 'f') || ('A' ≤ c && c ≤ 'F')

/-- Value of a digit; 0 for any other character. -/
def digitValue (c : Char) : Nat :=
  if c.isDigit then c.toNat - '0'.toNat
  else if 'a' ≤ c && c ≤ 'f' then c.toNat - 'a'.toNat + 10
  else if 'A' ≤ c && c ≤ 'F' then c.toNat - 'A'.toNat + 10
  else 0

/-- The number that the digits spell, most significant first. -/
def value (cs : List Char) : Nat := cs.foldl (fun n c => 16 * n + digitValue c) 0

/-- The number spelled by exactly `count` digits and nothing else. -/
def read? (count : Nat) (cs : List Char) : Option Nat :=
  if cs.length = count ∧ cs.all isDigit then some (value cs) else none

end Tribyte.Text.Hexadecimal
