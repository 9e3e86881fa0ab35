import Tribyte.Proofs.Object.RoundTrip

/-! Which bytes are written again as they were read.

Reading is laxer than writing in three places: a text record may be longer than the writer allows, the name of
a header may be broken UTF-8, and its field may hold anything behind the first NUL. Everywhere else the record
that is read is written with the same bytes (`encode_read_iff`). -/
namespace Tribyte.Record

open Text

/-- The values that have fields of 24 bits. -/
def words : Record → List Nat
  | header _ start length => [start, length]
  | text start _ => [start]
  | modification address _ => [address]
  | finish entry => [entry]

/-- A name field as it is written: UTF-8 up to the first NUL, and only NUL from there on. -/
def CanonicalName (field : List UInt8) : Prop :=
  (field.takeWhile (· != 0)).toByteArray.IsValidUTF8 ∧ ∀ b ∈ field.dropWhile (· != 0), b = 0

instance (field : List UInt8) : Decidable (CanonicalName field) := inferInstanceAs (Decidable (_ ∧ _))

/-- The bytes at whose front the record is read spell it as it is written. -/
def Canonical (bytes : List UInt8) : Record → Prop
  | header _ _ _ => CanonicalName ((bytes.drop 1).take nameSize)
  | text _ payload => payload.length ≤ payloadLimit
  | modification _ _ | finish _ => True

theorem Spells.words_le {bytes : List UInt8} {r : Record} (h : Spells bytes r) :
    ∀ value ∈ r.words, value ≤ Word.greatest := by
  cases h with
  | header hname hstart hlength =>
    simpa [words] using ⟨LittleEndian.decode_word_le hstart, LittleEndian.decode_word_le hlength⟩
  | text hstart hpayload => simpa [words] using LittleEndian.decode_word_le hstart
  | modification length haddress => simpa [words] using LittleEndian.decode_word_le haddress
  | finish hentry => simpa [words] using LittleEndian.decode_word_le hentry

/-! ### Names -/

theorem toList_readName (field : List UInt8) :
    (readName field).toList = Utf8.decode (field.takeWhile (· != 0)) := String.toList_ofList

/-- A canonical name field is its text and the padding. -/
theorem rightpad_of_canonicalName {field : List UInt8} (hfield : field.length = nameSize) (h : CanonicalName field) :
    (Utf8.encode (readName field).toList).length ≤ nameSize ∧
      (Utf8.encode (readName field).toList).rightpad nameSize 0 = field := by
  obtain ⟨hvalid, hpadding⟩ := h
  have hsplit : field.takeWhile (· != 0) ++ field.dropWhile (· != 0) = field := List.takeWhile_append_dropWhile
  have hlength := congrArg List.length hsplit
  rw [List.length_append, hfield] at hlength
  rw [toList_readName, Utf8.encode_decode_iff.mpr hvalid]
  refine ⟨by omega, ?_⟩
  have hcount : nameSize - (field.takeWhile (· != 0)).length = (field.dropWhile (· != 0)).length := by omega
  rw [List.rightpad, hcount, ← List.eq_replicate_of_mem hpadding, hsplit]

/-- A name field that is written again is canonical. -/
theorem canonicalName_of_rightpad {field : List UInt8}
    (h : (Utf8.encode (readName field).toList).rightpad nameSize 0 = field) : CanonicalName field := by
  rw [toList_readName, List.rightpad] at h
  generalize nameSize - _ = count at h
  -- What stands before the first zero of the padded text is a text itself, so decoding it has replaced nothing.
  have htext : field.takeWhile (· != 0) =
      Utf8.encode ((Utf8.decode (field.takeWhile (· != 0))).takeWhile (· != '\x00')) := by
    conv => lhs; rw [← h, Utf8.takeWhile_padded]
  have hsame : Utf8.encode (Utf8.decode (field.takeWhile (· != 0))) = field.takeWhile (· != 0) := by
    conv => lhs; rw [htext, Utf8.decode_encode, ← htext]
  refine ⟨Utf8.encode_decode_iff.mp hsame, ?_⟩
  have hsplit : field.takeWhile (· != 0) ++ field.dropWhile (· != 0) = field := List.takeWhile_append_dropWhile
  rw [hsame] at h
  have hpadding := List.append_cancel_left (hsplit.trans h.symm)
  intro b hb
  rw [hpadding] at hb
  exact List.eq_of_mem_replicate hb

/-! ### Records -/

/-- What spells a record is written again exactly where it is canonical. -/
theorem Spells.encode_iff {front : List UInt8} {r : Record} (h : Spells front r) (rest : List UInt8) :
    r.encode = .ok front ↔ r.Canonical (front ++ rest) := by
  rw [encode_eq_ok_iff]
  cases h with
  | @header name start length hname hstart hlength =>
    have hfield : ((0 :: (name ++ start ++ length) ++ rest).drop 1).take nameSize = name := by
      rw [List.cons_append, List.drop_one, List.tail_cons, List.append_assoc, List.append_assoc, ← hname,
        List.take_left]
    simp only [Canonical, hfield, Fits, wire, tag, LittleEndian.encode_decode_word hstart,
      LittleEndian.encode_decode_word hlength, LittleEndian.decode_word_le hstart, LittleEndian.decode_word_le hlength,
      and_true, List.cons.injEq, true_and, List.append_left_inj]
    constructor
    · rintro ⟨-, hpadded⟩
      exact canonicalName_of_rightpad hpadded
    · exact rightpad_of_canonicalName hname
  | @text start payload count hstart hpayload =>
    have hcount : payload.length.toUInt8 = count := by
      rw [hpayload]
      simp
    simp only [Canonical, Fits, wire, tag, LittleEndian.encode_decode_word hstart, hcount,
      LittleEndian.decode_word_le hstart, true_and, and_true]
  | modification length haddress =>
    simp only [Canonical, Fits, wire, tag, LittleEndian.encode_decode_word haddress,
      LittleEndian.decode_word_le haddress, and_self]
  | finish hentry =>
    simp only [Canonical, Fits, wire, tag, LittleEndian.encode_decode_word hentry, LittleEndian.decode_word_le hentry,
      and_self]

/-- A record that is read from the front of some bytes takes no more than there are and holds no value that its
fields have no room for; it is written with the bytes it was read from exactly where they are canonical. -/
theorem encode_read_iff {bytes : List UInt8} {r : Record} {n : Nat} (h : decode? bytes = some (r, n)) :
    n ≤ bytes.length ∧ (∀ value ∈ r.words, value ≤ Word.greatest) ∧
      (r.encode = .ok (bytes.take n) ↔ r.Canonical bytes) := by
  refine ⟨(decode?_length h).2, ?_⟩
  obtain ⟨front, rest, rfl, rfl, hspells⟩ := decode?_eq_some_iff.mp h
  rw [List.take_left]
  exact ⟨hspells.words_le, hspells.encode_iff rest⟩

/-- A name of one character in two bytes. With one more character behind the NUL that follows it the same record
is read, but it is no longer written with these bytes. -/
theorem name_field_behind_nul :
    decode? [0, 0xC3, 0xA9, 0, 0, 0, 0, 1, 0, 0, 2, 0, 0, 7] = some (.header "\u00E9" 1 2, 13) ∧
    (header "\u00E9" 1 2).encode = .ok [0, 0xC3, 0xA9, 0, 0, 0, 0, 1, 0, 0, 2, 0, 0] ∧
    decode? [0, 0xC3, 0xA9, 0, 65, 0, 0, 1, 0, 0, 2, 0, 0, 7] = some (.header "\u00E9" 1 2, 13) ∧
    ¬(header "\u00E9" 1 2).encode = .ok [0, 0xC3, 0xA9, 0, 65, 0, 0, 1, 0, 0, 2, 0, 0] := by
  have hclean : decode? [0, 0xC3, 0xA9, 0, 0, 0, 0, 1, 0, 0, 2, 0, 0, 7] = some (.header "\u00E9" 1 2, 13) := by
    decide +kernel
  have hmore : decode? [0, 0xC3, 0xA9, 0, 65, 0, 0, 1, 0, 0, 2, 0, 0, 7] = some (.header "\u00E9" 1 2, 13) := by
    decide +kernel
  refine ⟨hclean, (encode_read_iff hclean).2.2.mpr ?_, hmore, fun h => ?_⟩
  · show CanonicalName [0xC3, 0xA9, 0, 0, 0, 0]
    decide +kernel
  · have hname : CanonicalName [0xC3, 0xA9, 0, 65, 0, 0] := (encode_read_iff hmore).2.2.mp h
    revert hname
    decide +kernel

end Tribyte.Record
