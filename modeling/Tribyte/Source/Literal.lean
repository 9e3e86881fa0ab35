import Tribyte.Text.Affix
import Tribyte.Text.Hexadecimal
import Tribyte.Text.Numeral
import Tribyte.Text.Quoted
import Tribyte.Word

/-! Literals: the operands that stand for a word or for bytes.

A word is six hexadecimal digits after `0x`, an unsigned decimal before `U`, or a signed decimal. Bytes are
two hexadecimal digits after `0x`, or ASCII text between `c'` and `'` with backslash escapes. -/
namespace Tribyte.Literal

open Text

inductive Fault where
  | invalidWord (text : String)
  | unsignedRange (value : Nat)
  | signedRange (value : Int)
  | invalidBytes (text : String)
  | unknownEscape (c : Char) (text : String)
  | notAscii (c : Char) (text : String)
  deriving DecidableEq, Repr

def Fault.message : Fault → String
  | invalidWord text => "invalid WORD operand " ++ Quoted.string text
  | unsignedRange value => s!"{value} does not fit in an unsigned 24-bit word"
  | signedRange value => s!"{value} does not fit in a signed 24-bit word"
  | invalidBytes text => "invalid BYTE operand " ++ Quoted.string text
  | unknownEscape c text => "unknown escape \\" ++ c.toString ++ " in " ++ Quoted.string text
  | notAscii c text => "non-ASCII character " ++ Quoted.char c ++ " in " ++ Quoted.string text

/-! ### Words -/

/-- Unsigned decimals are read up to 64 bits; beyond that they are no literals at all. -/
def unsignedWord (text : String) (digits : List Char) : Except Fault Nat :=
  match Numeral.natural? digits with
  | none => .error (.invalidWord text)
  | some n =>
    if Numeral.greatest64 < n then .error (.invalidWord text)
    else if Word.greatest < n then .error (.unsignedRange n)
    else .ok n

/-- Signed decimals are read within 64 bits; beyond that they are no literals at all. -/
def signedWord (text : String) (cs : List Char) : Except Fault Nat :=
  match Numeral.integer? cs with
  | none => .error (.invalidWord text)
  | some z =>
    if z < -0x8000000000000000 ∨ 0x7FFFFFFFFFFFFFFF < z then .error (.invalidWord text)
    else if z < Word.leastSigned ∨ Word.greatestSigned < z then .error (.signedRange z)
    else .ok (Word.ofSigned z)

def word (text : String) : Except Fault Nat :=
  match text.toList with
  | '0' :: 'x' :: hex =>
    match Hexadecimal.read? 6 hex with
    | some n => .ok n
    | none => .error (.invalidWord text)
  | cs =>
    match dropSuffix? ['U'] cs with
    | some digits => unsignedWord text digits
    | none => signedWord text cs

/-! ### Bytes -/

/-- The byte that a character names after a backslash. -/
def escaped? (c : Char) : Option UInt8 :=
  if c = 'n' then some 10
  else if c = 't' then some 9
  else if c = 'r' then some 13
  else if c = '0' then some 0
  else if c = '\\' then some 92
  else if c = '\'' then some 39
  else none

/-- The bytes of quoted text; `text` is the whole operand, for messages. -/
def unescape (text : String) : List Char → Except Fault (List UInt8)
  | [] => .ok []
  | ['\\'] => .error (.invalidBytes text)
  | '\\' :: c :: rest =>
    match escaped? c with
    | some b => (unescape text rest).map (b :: ·)
    | none => .error (.unknownEscape c text)
  | c :: rest =>
    if c.toNat < 128 then (unescape text rest).map (c.toNat.toUInt8 :: ·)
    else .error (.notAscii c text)

def bytes (text : String) : Except Fault (List UInt8) :=
  match text.toList with
  | '0' :: 'x' :: hex =>
    match Hexadecimal.read? 2 hex with
    | some n => .ok [n.toUInt8]
    | none => .error (.invalidBytes text)
  | 'c' :: '\'' :: rest =>
    match dropSuffix? ['\''] rest with
    | some body => unescape text body
    | none => .error (.invalidBytes text)
  | _ => .error (.invalidBytes text)

end Tribyte.Literal
