import Tribyte.Object.Record

/-! Images: records one after another, as an object file holds them.

A reader takes records off the front and stops at the first bytes that are none; what is left are
trailing bytes. -/
namespace Tribyte

/-- The image of records, or the first error among them. -/
def encodeImage (records : List Record) : Except Record.Error (List UInt8) :=
  (records.mapM Record.encode).map List.flatten

/-- A place in an image: how many bytes were read, and the bytes that follow. -/
structure Reader where
  offset : Nat
  rest : List UInt8
  deriving DecidableEq, Repr

namespace Reader

def ofImage (image : List UInt8) : Reader := ⟨0, image⟩

/-- Take a record off the front, if one stands there. -/
def next (r : Reader) : Option Record × Reader :=
  match Record.decode? r.rest with
  | none => (none, r)
  | some (record, n) => (some record, ⟨r.offset + n, r.rest.drop n⟩)

theorem next_length {r r' : Reader} {record : Record} (h : r.next = (some record, r')) :
    r'.rest.length < r.rest.length := by
  unfold next at h
  split at h
  · cases h
  · rename_i n hd
    have := Record.decode?_length hd
    cases h
    simp only [List.length_drop]
    omega

/-- The records that follow, each with the reader behind it. -/
def readings (r : Reader) : List (Record × Reader) :=
  match _ : r.next with
  | (none, _) => []
  | (some record, r') => (record, r') :: r'.readings
termination_by r.rest.length
decreasing_by exact next_length ‹_›

def records (r : Reader) : List Record := r.readings.map Prod.fst

/-- The reader behind the last record. -/
def last (r : Reader) : Reader := (r.readings.getLast?.map Prod.snd).getD r

end Reader

def decodeImage (image : List UInt8) : List Record := (Reader.ofImage image).records

end Tribyte
