import Mathlib.Data.List.TakeWhile
import Tribyte.Object.Image
import Tribyte.Proofs.Checked
import Tribyte.Proofs.Object.Spelling
import Tribyte.Proofs.Text.Utf8

/-! Records come back from their bytes.

A record is written exactly where each of its fields has room for its value (`encode_eq_ok_iff`). What is then
written is read back whatever bytes follow (`decode?_wire`), and so are records one after another
(`decodeImage_flatMap_wire`); only a name that holds a NUL is cut there. `image_round_trip` says it of any list of
records. -/
namespace Tribyte

open Text

/-- Three bytes hold a word. -/
theorem LittleEndian.decode_encode_word {value : Nat} (h : value ≤ Word.greatest) :
    decode (encode 3 value) = value := by
  rw [decode_encode]
  exact Nat.mod_eq_of_lt (Nat.lt_succ_of_le h)

theorem LittleEndian.encode_decode_word {bytes : List UInt8} (h : bytes.length = 3) :
    encode 3 (decode bytes) = bytes := by
  rw [← h, encode_decode]

theorem LittleEndian.decode_word_le {bytes : List UInt8} (h : bytes.length = 3) : decode bytes ≤ Word.greatest := by
  have hlt := decode_lt bytes
  rw [h] at hlt
  exact Nat.le_of_lt_succ hlt

namespace Record

/-- Each field has room for its value. -/
def Fits : Record → Prop
  | header name start length =>
    (Utf8.encode name.toList).length ≤ nameSize ∧ start ≤ Word.greatest ∧ length ≤ Word.greatest
  | text start payload => start ≤ Word.greatest ∧ payload.length ≤ payloadLimit
  | modification address _ => address ≤ Word.greatest
  | finish entry => entry ≤ Word.greatest

instance : (r : Record) → Decidable r.Fits
  | header name start length =>
    inferInstanceAs (Decidable ((Utf8.encode name.toList).length ≤ nameSize ∧ start ≤ Word.greatest ∧
      length ≤ Word.greatest))
  | text start payload => inferInstanceAs (Decidable (start ≤ Word.greatest ∧ payload.length ≤ payloadLimit))
  | modification address _ => inferInstanceAs (Decidable (address ≤ Word.greatest))
  | finish entry => inferInstanceAs (Decidable (entry ≤ Word.greatest))

/-- The bytes of a record that fits. -/
def wire (r : Record) : List UInt8 :=
  r.tag :: match r with
  | header name start length =>
    (Utf8.encode name.toList).rightpad nameSize 0 ++ LittleEndian.encode 3 start ++ LittleEndian.encode 3 length
  | text start payload => LittleEndian.encode 3 start ++ [payload.length.toUInt8] ++ payload
  | modification address length => LittleEndian.encode 3 address ++ [length]
  | finish entry => LittleEndian.encode 3 entry

/-- The record that is read back: a name ends at its first NUL. -/
def readBack : Record → Record
  | header name start length =>
    header (String.ofList (name.toList.takeWhile (· != '\x00'))) start length
  | r => r

/-! ### Writing -/

theorem encode_eq_ok_iff {r : Record} {bytes : List UInt8} :
    r.encode = .ok bytes ↔ r.Fits ∧ r.wire = bytes := by
  cases r with
  | header name start length =>
    by_cases hn : (Utf8.encode name.toList).length ≤ nameSize <;>
      by_cases hs : start ≤ Word.greatest <;>
      by_cases hl : length ≤ Word.greatest <;>
      simp [encode, write, parts, writeParts, nameField, field, Fits, wire, hn, hs, hl, Nat.not_lt.mpr,
        Nat.lt_of_not_ge]
  | text start payload =>
    by_cases hs : start ≤ Word.greatest <;>
      by_cases hp : payload.length ≤ payloadLimit <;>
      simp [encode, write, parts, writeParts, field, Fits, wire, hs, hp, Nat.not_lt.mpr, Nat.lt_of_not_ge]
  | modification address length =>
    by_cases ha : address ≤ Word.greatest <;>
      simp [encode, write, parts, writeParts, field, Fits, wire, ha, Nat.not_lt.mpr, Nat.lt_of_not_ge]
  | finish entry =>
    by_cases he : entry ≤ Word.greatest <;>
      simp [encode, write, parts, writeParts, field, Fits, wire, he, Nat.not_lt.mpr, Nat.lt_of_not_ge]

/-! ### Reading -/

theorem length_rightpad {bytes : List UInt8} (h : bytes.length ≤ nameSize) :
    (bytes.rightpad nameSize 0).length = nameSize := by
  rw [List.length_rightpad]
  exact Nat.max_eq_left h

theorem readName_rightpad (name : String) :
    readName ((Utf8.encode name.toList).rightpad nameSize 0) =
      String.ofList (name.toList.takeWhile (· != '\x00')) := by
  rw [readName, List.rightpad, Utf8.decode_takeWhile_padded]

/-- What is written of a record spells the record that is read back. -/
theorem spells_wire {r : Record} (h : r.Fits) : Spells r.wire r.readBack := by
  cases r with
  | header name start length =>
    obtain ⟨hname, hstart, hlength⟩ := h
    have hspells := Spells.header (length_rightpad hname) (LittleEndian.length_encode 3 start)
      (LittleEndian.length_encode 3 length)
    rw [readName_rightpad, LittleEndian.decode_encode_word hstart, LittleEndian.decode_encode_word hlength] at hspells
    exact hspells
  | text start payload =>
    obtain ⟨hstart, hpayload⟩ := h
    have hcount : payload.length = payload.length.toUInt8.toNat := by
      have : payload.length < 256 := Nat.lt_of_le_of_lt hpayload (by decide)
      simp [Nat.mod_eq_of_lt this]
    have hspells := Spells.text (LittleEndian.length_encode 3 start) hcount
    rw [LittleEndian.decode_encode_word hstart] at hspells
    exact hspells
  | modification address length =>
    have hspells := Spells.modification length (LittleEndian.length_encode 3 address)
    rw [LittleEndian.decode_encode_word h] at hspells
    exact hspells
  | finish entry =>
    have hspells := Spells.finish (LittleEndian.length_encode 3 entry)
    rw [LittleEndian.decode_encode_word h] at hspells
    exact hspells

theorem decode?_wire {r : Record} (h : r.Fits) (rest : List UInt8) :
    decode? (r.wire ++ rest) = some (r.readBack, r.wire.length) :=
  (spells_wire h).decode?_append rest

theorem readBack_of_notMem {r : Record}
    (h : ∀ name start length, r = header name start length → '\x00' ∉ name.toList) : r.readBack = r := by
  cases r with
  | header name start length =>
    have hkept : ∀ c ∈ name.toList, (c != '\x00') = true := by
      intro c hc
      rw [bne_iff_ne]
      rintro rfl
      exact h name start length rfl hc
    rw [readBack, List.takeWhile_eq_self_iff.mpr hkept, String.ofList_toList]
  | text | modification | finish => rfl

end Record

/-! ### Images -/

theorem encodeImage_eq_ok_iff {records : List Record} {image : List UInt8} :
    encodeImage records = .ok image ↔ (∀ r ∈ records, r.Fits) ∧ records.flatMap Record.wire = image := by
  have hwritten : (∀ r ∈ records, r.encode = .ok r.wire) ↔ ∀ r ∈ records, r.Fits :=
    forall₂_congr fun r _ => Record.encode_eq_ok_iff.trans (and_iff_left rfl)
  have hall (parts : List (List UInt8)) : records.mapM Record.encode = .ok parts ↔
      (∀ r ∈ records, r.Fits) ∧ records.map Record.wire = parts := by
    rw [Checked.mapM_eq_ok_iff fun h => (Record.encode_eq_ok_iff.mp h).2, hwritten]
  unfold encodeImage
  cases hparts : records.mapM Record.encode with
  | error e =>
    constructor
    · intro h
      cases h
    · intro h
      rw [(hall _).mpr ⟨h.1, rfl⟩] at hparts
      cases hparts
  | ok parts =>
    obtain ⟨hfits, rfl⟩ := (hall parts).mp hparts
    show Except.ok (records.map Record.wire).flatten = Except.ok image ↔ _
    rw [Except.ok.injEq, List.flatMap_def, and_iff_right hfits]

namespace Reader

theorem readings_of_next {r r' : Reader} {record : Record} (h : r.next = (some record, r')) :
    r.readings = (record, r') :: r'.readings := by
  rw [readings]
  split
  · rename_i hnone
    cases h.symm.trans hnone
  · rename_i hsome
    cases h.symm.trans hsome
    rfl

theorem readings_nil (offset : Nat) : (Reader.mk offset []).readings = [] := by
  rw [readings]
  rfl

theorem records_of_next {r r' : Reader} {record : Record} (h : r.next = (some record, r')) :
    r.records = record :: r'.records := by
  rw [records, readings_of_next h, List.map_cons, records]

theorem last_of_next {r r' : Reader} {record : Record} (h : r.next = (some record, r')) : r.last = r'.last := by
  rw [last, readings_of_next h, last]
  cases hrest : r'.readings with
  | nil => rfl
  | cons reading rest => rw [List.getLast?_cons_cons, List.getLast?_eq_some_getLast (List.cons_ne_nil reading rest)]; rfl

/-- The first of several records is read, and the bytes of the others are left. -/
theorem next_flatMap_wire {r : Record} (h : r.Fits) (records : List Record) (offset : Nat) :
    (Reader.mk offset ((r :: records).flatMap Record.wire)).next =
      (some r.readBack, ⟨offset + r.wire.length, records.flatMap Record.wire⟩) := by
  rw [next, List.flatMap_cons, Record.decode?_wire h]
  show (some r.readBack, Reader.mk (offset + r.wire.length) (List.drop r.wire.length (r.wire ++ _))) = _
  rw [List.drop_left]

end Reader

theorem records_flatMap_wire {records : List Record} (h : ∀ r ∈ records, r.Fits) (offset : Nat) :
    (Reader.mk offset (records.flatMap Record.wire)).records = records.map Record.readBack := by
  induction records generalizing offset with
  | nil => rw [List.flatMap_nil, Reader.records, Reader.readings_nil]; rfl
  | cons r rest ih =>
    rw [Reader.records_of_next (Reader.next_flatMap_wire (h r (List.mem_cons_self ..)) rest offset), List.map_cons,
      ih fun s hs => h s (List.mem_cons_of_mem r hs)]

/-- The reader behind the last record has read every byte. -/
theorem last_flatMap_wire {records : List Record} (h : ∀ r ∈ records, r.Fits) (offset : Nat) :
    (Reader.mk offset (records.flatMap Record.wire)).last =
      ⟨offset + (records.flatMap Record.wire).length, []⟩ := by
  induction records generalizing offset with
  | nil => rw [List.flatMap_nil, Reader.last, Reader.readings_nil]; rfl
  | cons r rest ih =>
    rw [Reader.last_of_next (Reader.next_flatMap_wire (h r (List.mem_cons_self ..)) rest offset),
      ih fun s hs => h s (List.mem_cons_of_mem r hs), List.flatMap_cons, List.length_append, Nat.add_assoc]

/-- Records one after another are read back in order. -/
theorem decodeImage_flatMap_wire {records : List Record} (h : ∀ r ∈ records, r.Fits) :
    decodeImage (records.flatMap Record.wire) = records.map Record.readBack :=
  records_flatMap_wire h 0

/-- Records can be written exactly where each field has room for its value. Their image then gives them back, with
names cut at their first NUL, and no byte of it is left. -/
theorem image_round_trip (records : List Record) :
    ((∃ image, encodeImage records = .ok image) ↔ ∀ r ∈ records, r.Fits) ∧
    ∀ image, encodeImage records = .ok image →
      decodeImage image = records.map Record.readBack ∧
      ((∀ name start length, .header name start length ∈ records → '\x00' ∉ name.toList) →
        decodeImage image = records) ∧
      (Reader.ofImage image).last = ⟨image.length, []⟩ := by
  refine ⟨?_, ?_⟩
  · simp only [encodeImage_eq_ok_iff, exists_and_left, exists_eq', and_true]
  · intro image h
    obtain ⟨hfits, rfl⟩ := encodeImage_eq_ok_iff.mp h
    have hdecode := decodeImage_flatMap_wire hfits
    refine ⟨hdecode, ?_, ?_⟩
    · intro hnames
      refine hdecode.trans ((List.map_congr_left ?_).trans (List.map_id records))
      rintro r hr
      exact Record.readBack_of_notMem fun name start length hheader => hnames name start length (hheader ▸ hr)
    · rw [Reader.ofImage, last_flatMap_wire hfits, Nat.zero_add]

/-- A name that goes on behind a NUL, in records of every kind and in no order that a program has. -/
theorem name_with_nul_round_trip :
    ∃ image,
      encodeImage [.finish 0xFFFFFF, .header "\u00E9\x00AB" 0xFFFFFF 1, .text 0 [], .modification 5 255] = .ok image ∧
      decodeImage image = [.finish 0xFFFFFF, .header "\u00E9" 0xFFFFFF 1, .text 0 [], .modification 5 255] ∧
      (Reader.ofImage image).last = ⟨image.length, []⟩ := by
  obtain ⟨hwritten, hread⟩ := image_round_trip
    [.finish 0xFFFFFF, .header "\u00E9\x00AB" 0xFFFFFF 1, .text 0 [], .modification 5 255]
  obtain ⟨image, himage⟩ := hwritten.mpr (by decide +kernel)
  obtain ⟨hdecode, -, hlast⟩ := hread image himage
  refine ⟨image, himage, hdecode.trans ?_, hlast⟩
  decide +kernel

end Tribyte
