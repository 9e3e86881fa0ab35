import Tribyte.Text.Hexadecimal
import Tribyte.Text.Numeral

/-! Reading JSON text as far as settings need it.

Text is checked against the grammar in full, but of a document only its outline is kept: natural numbers,
null, and how values are nested. -/
namespace Tribyte.Text.JsonReader

/-- What is kept of a document. -/
inductive Outline where
  | null
  | natural (n : Nat)
  /-- A truth value, a string, or a number that is negative or has a fraction or an exponent. -/
  | other
  | array (items : List Outline)
  /-- A key is missing where an unpaired surrogate escape leaves it without a text. -/
  | object (members : List (Option String × Outline))

def skipBlanks (cs : List Char) : List Char :=
  cs.dropWhile fun c => c = ' ' || c = '\n' || c = '\t' || c = '\r'

/-! ### Strings -/

/-- The code unit in four hexadecimal digits. -/
def codeUnit : List Char → Option (Nat × List Char)
  | a :: b :: c :: d :: rest => (Hexadecimal.read? 4 [a, b, c, d]).map (·, rest)
  | _ => none

/-- A character that a backslash may stand before, and what it stands for. -/
def shortEscape? (c : Char) : Option Nat :=
  if c = '"' || c = '\\' || c = '/' then some c.toNat
  else if c = 'b' then some 8
  else if c = 'f' then some 12
  else if c = 'n' then some 10
  else if c = 'r' then some 13
  else if c = 't' then some 9
  else none

/-- The code units and characters of a string up to its closing quote, as numbers; characters beyond 16
bits are kept whole. -/
def stringUnits : (fuel : Nat) → List Char → Option (List Nat × List Char)
  | 0, _ => none
  | n + 1, cs =>
    match cs with
    | [] => none
    | '"' :: rest => some ([], rest)
    | '\\' :: 'u' :: rest => do
      let (unit, rest) ← codeUnit rest
      let (units, rest) ← stringUnits n rest
      return (unit :: units, rest)
    | '\\' :: c :: rest => do
      let unit ← shortEscape? c
      let (units, rest) ← stringUnits n rest
      return (unit :: units, rest)
    | c :: rest => do
      if c < ' ' || c = '\\' then none
      else
        let (units, rest) ← stringUnits n rest
        return (c.toNat :: units, rest)

/-- The text of code units; `none` where a surrogate has no partner. -/
def unitsText? : List Nat → Option (List Char)
  | [] => some []
  | high :: rest =>
    if 0xD800 ≤ high && high < 0xDC00 then
      match rest with
      | low :: rest =>
        if 0xDC00 ≤ low && low < 0xE000 then
          (unitsText? rest).map
            (Char.ofNat (0x10000 + 0x400 * (high - 0xD800) + (low - 0xDC00)) :: ·)
        else none
      | [] => none
    else if 0xDC00 ≤ high && high < 0xE000 then none
    else (unitsText? rest).map (Char.ofNat high :: ·)

/-- A string after its opening quote. -/
def readString (cs : List Char) : Option (Option String × List Char) :=
  (stringUnits (cs.length + 1) cs).map fun (units, rest) =>
    ((unitsText? units).map String.ofList, rest)

/-! ### Numbers -/

/-- One or more digits, and what follows them. -/
def readDigits (cs : List Char) : Option (List Char × List Char) :=
  let digits := cs.takeWhile Char.isDigit
  if digits = [] then none else some (digits, cs.dropWhile Char.isDigit)

/-- What follows an optional fraction, and whether there was one. -/
def skipFraction : List Char → Option (Bool × List Char)
  | '.' :: rest => (readDigits rest).map fun (_, rest) => (true, rest)
  | rest => some (false, rest)

/-- What follows an optional exponent, and whether there was one. -/
def skipExponent : List Char → Option (Bool × List Char)
  | c :: rest =>
    if c = 'e' || c = 'E' then
      let rest := match rest with
        | '+' :: digits | '-' :: digits => digits
        | digits => digits
      (readDigits rest).map fun (_, rest) => (true, rest)
    else some (false, c :: rest)
  | [] => some (false, [])

/-- A number. No digit stands before or after a leading zero; naturals beyond 64 bits are not kept. -/
def readNumber (cs : List Char) : Option (Outline × List Char) := do
  let (negative, cs) := match cs with
    | '-' :: rest => (true, rest)
    | rest => (false, rest)
  let (digits, rest) ← readDigits cs
  if digits.head? = some '0' && 1 < digits.length then none
  else
    let (fraction, rest) ← skipFraction rest
    let (exponent, rest) ← skipExponent rest
    let n := Numeral.value digits
    if negative || fraction || exponent || Numeral.greatest64 < n then return (.other, rest)
    else return (.natural n, rest)

/-! ### Values -/

mutual

def readValue : (fuel : Nat) → List Char → Option (Outline × List Char)
  | 0, _ => none
  | n + 1, cs =>
    match skipBlanks cs with
    | 'n' :: 'u' :: 'l' :: 'l' :: rest => some (.null, rest)
    | 't' :: 'r' :: 'u' :: 'e' :: rest => some (.other, rest)
    | 'f' :: 'a' :: 'l' :: 's' :: 'e' :: rest => some (.other, rest)
    | '"' :: rest => (readString rest).map fun (_, rest) => (.other, rest)
    | '[' :: rest =>
      match skipBlanks rest with
      | ']' :: rest => some (.array [], rest)
      | rest => (readItems n rest).map fun (items, rest) => (.array items, rest)
    | '\x7b' :: rest =>
      match skipBlanks rest with
      | '\x7d' :: rest => some (.object [], rest)
      | rest => (readMembers n rest).map fun (members, rest) => (.object members, rest)
    | rest => readNumber rest

/-- The items of an array, at least one, and its closing bracket. -/
def readItems : (fuel : Nat) → List Char → Option (List Outline × List Char)
  | 0, _ => none
  | n + 1, cs => do
    let (item, rest) ← readValue n cs
    match skipBlanks rest with
    | ',' :: rest =>
      let (items, rest) ← readItems n rest
      return (item :: items, rest)
    | ']' :: rest => return ([item], rest)
    | _ => none

/-- The members of an object, at least one, and its closing brace. -/
def readMembers : (fuel : Nat) → List Char → Option (List (Option String × Outline) × List Char)
  | 0, _ => none
  | n + 1, cs =>
    match skipBlanks cs with
    | '"' :: rest => do
      let (key, rest) ← readString rest
      match skipBlanks rest with
      | ':' :: rest =>
        let (value, rest) ← readValue n rest
        match skipBlanks rest with
        | ',' :: rest =>
          let (members, rest) ← readMembers n rest
          return ((key, value) :: members, rest)
        | '\x7d' :: rest => return ([(key, value)], rest)
        | _ => none
      | _ => none
    | _ => none

end

/-- The outline of a text that is one JSON value and nothing else. Every value takes a character, and no more
than two calls of the readers look at the same one. -/
def outline? (text : String) : Option Outline :=
  let cs := text.toList
  match readValue (2 * cs.length + 2) cs with
  | some (value, rest) => if skipBlanks rest = [] then some value else none
  | none => none

end Tribyte.Text.JsonReader
