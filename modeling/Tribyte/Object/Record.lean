import Tribyte.LittleEndian
import Tribyte.Text.Hexadecimal
import Tribyte.Text.Quoted
import Tribyte.Text.Utf8
import Tribyte.Word

/-! Object records and their bytes.

A record is a tag byte and fixed little-endian fields; a text record is followed by its payload. Program
names fill six bytes and are padded with NUL. -/
namespace Tribyte

open Text

inductive Record where
  | header (name : String) (start length : Nat)
  | text (start : Nat) (payload : List UInt8)
  /-- A field of `length` bytes to which the load base is added. -/
  | modification (address : Nat) (length : UInt8)
  /-- The end of the program, with the address of its entry. -/
  | finish (entry : Nat)
  deriving DecidableEq, Repr

namespace Record

def tag : Record → UInt8
  | header _ _ _ => 0
  | text _ _ => 1
  | finish _ => 2
  | modification _ _ => 3

def kind : Record → String
  | header _ _ _ => "header"
  | text _ _ => "text"
  | modification _ _ => "modification"
  | finish _ => "end"

/-- Bytes of the name in a header. -/
def nameSize : Nat := 6

/-- The longest payload of a text record. -/
def payloadLimit : Nat := 30

/-! ### Writing -/

/-- The fields that hold 24 bits. -/
inductive Field where
  | start | length | exec | address
  deriving DecidableEq, Repr

def Field.name : Field → String
  | start => "start"
  | length => "length"
  | exec => "exec"
  | address => "address"

inductive Error where
  | fieldOverflow (field : Field) (value : Nat)
  | payloadTooLong (length : Nat)
  | nameTooLong (name : String)
  deriving DecidableEq, Repr

def Error.message : Error → String
  | fieldOverflow field value =>
    field.name ++ " value " ++ Hexadecimal.marked 1 value ++ " does not fit in 24 bits"
  | payloadTooLong length => s!"text record payload of {length} bytes exceeds 30"
  | nameTooLong name => "program name " ++ Quoted.string name ++ " is longer than 6 bytes"

def field (f : Field) (value : Nat) : Except Error (List UInt8) :=
  if Word.greatest < value then .error (.fieldOverflow f value)
  else .ok (LittleEndian.encode 3 value)

def nameField (name : String) : Except Error (List UInt8) :=
  let bytes := Utf8.encode name.toList
  if nameSize < bytes.length then .error (.nameTooLong name)
  else .ok (bytes.rightpad nameSize 0)

/-- The parts of a record in the order in which they are written. A payload is measured before anything
but the tag is written. -/
def parts (r : Record) : List (Except Error (List UInt8)) :=
  .ok [r.tag] ::
  match r with
  | header name start length => [nameField name, field .start start, field .length length]
  | text start payload =>
    [if payloadLimit < payload.length then .error (.payloadTooLong payload.length) else .ok [],
     field .start start, .ok (payload.length.toUInt8 :: payload)]
  | finish entry => [field .exec entry]
  | modification address length => [field .address address, .ok [length]]

/-- What is written of the parts: all of them, or those before the first that fails. -/
def writeParts : List (Except Error (List UInt8)) → List UInt8 × Option Error
  | [] => ([], none)
  | .error e :: _ => ([], some e)
  | .ok bytes :: rest => let (written, failure) := writeParts rest; (bytes ++ written, failure)

/-- The bytes that are written of a record, and the error that stopped the writing. -/
def write (r : Record) : List UInt8 × Option Error := writeParts r.parts

def encode (r : Record) : Except Error (List UInt8) :=
  match r.write with
  | (bytes, none) => .ok bytes
  | (_, some e) => .error e

/-! ### Reading -/

/-- The first `count` bytes and the rest, where there are so many. -/
def take? (count : Nat) (bytes : List UInt8) : Option (List UInt8 × List UInt8) :=
  let front := bytes.take count
  if front.length = count then some (front, bytes.drop count) else none

theorem take?_eq_some_iff {count : Nat} {bytes front rest : List UInt8} :
    take? count bytes = some (front, rest) ↔ bytes = front ++ rest ∧ front.length = count := by
  simp only [take?]
  split
  · rename_i h
    constructor
    · intro he
      cases he
      exact ⟨(List.take_append_drop count bytes).symm, h⟩
    · rintro ⟨rfl, rfl⟩
      simp
  · rename_i h
    constructor
    · intro he
      cases he
    · rintro ⟨rfl, rfl⟩
      simp at h

/-- A name up to its first NUL. -/
def readName (bytes : List UInt8) : String := String.ofList (Utf8.decode (bytes.takeWhile (· != 0)))

/-- The fields after the tag of a header, and the bytes that the record takes. -/
def readHeader? (body : List UInt8) : Option (Record × Nat) := do
  let (name, rest) ← take? nameSize body
  let (start, rest) ← take? 3 rest
  let (length, _) ← take? 3 rest
  return (.header (readName name) (LittleEndian.decode start) (LittleEndian.decode length), 13)

def readTextRecord? (body : List UInt8) : Option (Record × Nat) := do
  let (start, rest) ← take? 3 body
  let (count, rest) ← take? 1 rest
  let (payload, _) ← take? (LittleEndian.decode count) rest
  return (.text (LittleEndian.decode start) payload, 5 + LittleEndian.decode count)

def readFinish? (body : List UInt8) : Option (Record × Nat) := do
  let (entry, _) ← take? 3 body
  return (.finish (LittleEndian.decode entry), 4)

def readModification? (body : List UInt8) : Option (Record × Nat) := do
  let (address, rest) ← take? 3 body
  let (length, _) ← take? 1 rest
  return (.modification (LittleEndian.decode address) (LittleEndian.decode length).toUInt8, 5)

/-- The record at the front of `bytes` and the number of bytes it takes: `none` where they are used up, or
start with no tag, or break off inside the record. -/
def decode? : List UInt8 → Option (Record × Nat)
  | [] => none
  | tag :: body =>
    if tag = 0 then readHeader? body
    else if tag = 1 then readTextRecord? body
    else if tag = 2 then readFinish? body
    else if tag = 3 then readModification? body
    else none

/-- A record takes at least four bytes, and no more than there are. -/
theorem decode?_length {bytes : List UInt8} {r : Record} {n : Nat} (h : decode? bytes = some (r, n)) :
    4 ≤ n ∧ n ≤ bytes.length := by
  cases bytes with
  | nil => simp [decode?] at h
  | cons tag body =>
    simp only [decode?] at h
    repeat' split at h
    · simp only [readHeader?, bind, Option.bind_eq_some_iff, Prod.exists, take?_eq_some_iff, pure,
        Option.some.injEq, Prod.mk.injEq] at h
      obtain ⟨name, _, ⟨rfl, hn⟩, start, _, ⟨rfl, hs⟩, length, rest, ⟨rfl, hl⟩, -, rfl⟩ := h
      simp only [nameSize] at hn
      simp [hn, hs, hl]
      omega
    · simp only [readTextRecord?, bind, Option.bind_eq_some_iff, Prod.exists, take?_eq_some_iff, pure,
        Option.some.injEq, Prod.mk.injEq] at h
      obtain ⟨start, _, ⟨rfl, hs⟩, count, _, ⟨rfl, hc⟩, payload, rest, ⟨rfl, hp⟩, -, rfl⟩ := h
      simp [hs, hc, hp]
      omega
    · simp only [readFinish?, bind, Option.bind_eq_some_iff, Prod.exists, take?_eq_some_iff, pure,
        Option.some.injEq, Prod.mk.injEq] at h
      obtain ⟨entry, rest, ⟨rfl, he⟩, -, rfl⟩ := h
      simp [he]
    · simp only [readModification?, bind, Option.bind_eq_some_iff, Prod.exists, take?_eq_some_iff, pure,
        Option.some.injEq, Prod.mk.injEq] at h
      obtain ⟨address, _, ⟨rfl, ha⟩, length, rest, ⟨rfl, hl⟩, -, rfl⟩ := h
      simp [ha, hl]
      omega
    · cases h

end Record

end Tribyte
