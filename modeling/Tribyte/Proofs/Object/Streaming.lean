import Tribyte.Object.File
import Tribyte.Proofs.Object.RoundTrip

/-! Reading an image piece by piece.

The records of some bytes do not change when more bytes come behind them: reading goes on where it stopped
(`records_append`). Of the first bytes of an image those records are read that end among them (`records_upTo`), so a
cut loses whole records at the end and nothing else. A reader never leaves its image (`Within`) and stays where it
stopped (`after_of_none`). `reader_streams` has it all. -/
namespace Tribyte

namespace Reader

theorem next_eq_some_iff {r r' : Reader} {record : Record} :
    r.next = (some record, r') ↔
      ∃ n, Record.decode? r.rest = some (record, n) ∧ r' = ⟨r.offset + n, r.rest.drop n⟩ := by
  constructor
  · intro h
    unfold next at h
    split at h
    · cases h
    · rename_i n hdecode
      cases h
      exact ⟨n, hdecode, rfl⟩
  · rintro ⟨n, hdecode, rfl⟩
    rw [next, hdecode]

theorem next_eq_none_iff {r r' : Reader} : r.next = (none, r') ↔ Record.decode? r.rest = none ∧ r' = r := by
  unfold next
  split
  · simp [*, eq_comm]
  · simp [*]

/-- A reader that finds no record stays where it is. -/
theorem next_eq_of_none {r : Reader} (h : r.next.1 = none) : r.next = (none, r) := by
  have hnext : r.next = (none, r.next.2) := Prod.ext h rfl
  exact next_eq_none_iff.mpr ⟨(next_eq_none_iff.mp hnext).1, rfl⟩

theorem readings_of_next_none {r r' : Reader} (h : r.next = (none, r')) : r.readings = [] := by
  rw [readings]
  split
  · rfl
  · rename_i hsome
    cases h.symm.trans hsome

theorem records_of_next_none {r r' : Reader} (h : r.next = (none, r')) : r.records = [] := by
  rw [records, readings_of_next_none h, List.map_nil]

theorem last_of_next_none {r r' : Reader} (h : r.next = (none, r')) : r.last = r := by
  rw [last, readings_of_next_none h]
  rfl

/-! ### More bytes -/

/-- The same place with more bytes at the end. -/
def append (r : Reader) (more : List UInt8) : Reader := ⟨r.offset, r.rest ++ more⟩

theorem next_append {r r' : Reader} {record : Record} (h : r.next = (some record, r')) (more : List UInt8) :
    (r.append more).next = (some record, r'.append more) := by
  obtain ⟨n, hdecode, rfl⟩ := next_eq_some_iff.mp h
  have hlength := (Record.decode?_length hdecode).2
  refine next_eq_some_iff.mpr ⟨n, Record.decode?_append hdecode more, ?_⟩
  simp only [append, List.drop_append_of_le_length hlength]

/-- Reading goes on where it stopped. -/
theorem records_append (r : Reader) (more : List UInt8) :
    (r.append more).records = r.records ++ (r.last.append more).records := by
  induction r using readings.induct with
  | case1 r _ hnone => rw [records_of_next_none hnone, last_of_next_none hnone, List.nil_append]
  | case2 r record r' hnext ih =>
    rw [records_of_next hnext, last_of_next hnext, records_of_next (next_append hnext more), ih, List.cons_append]

/-- How many bytes were read before makes no difference. -/
theorem records_mk (r : Reader) (offset : Nat) : (Reader.mk offset r.rest).records = r.records := by
  induction r using readings.induct generalizing offset with
  | case1 r _ hnone =>
    have hdecode := (next_eq_none_iff.mp hnone).1
    have hsame : (Reader.mk offset r.rest).next = (none, _) := next_eq_none_iff.mpr ⟨hdecode, rfl⟩
    rw [records_of_next_none hnone, records_of_next_none hsame]
  | case2 r record r' hnext ih =>
    obtain ⟨n, hdecode, hr'⟩ := next_eq_some_iff.mp hnext
    have hsame : (Reader.mk offset r.rest).next = (some record, ⟨offset + n, r'.rest⟩) :=
      next_eq_some_iff.mpr ⟨n, hdecode, by rw [hr']⟩
    rw [records_of_next hnext, records_of_next hsame, ih]

/-! ### Fewer bytes -/

/-- The same place in an image that ends after `k` more bytes. -/
def upTo (r : Reader) (k : Nat) : Reader := ⟨r.offset, r.rest.take k⟩

/-- The records that end in time are read, and none of those behind them. -/
theorem records_upTo (r : Reader) (k : Nat) :
    (r.upTo k).records = (r.readings.takeWhile (·.2.offset ≤ r.offset + k)).map Prod.fst := by
  induction r using readings.induct generalizing k with
  | case1 r _ hnone =>
    have hcut : Record.decode? (r.upTo k).rest = none := by
      rw [upTo, Record.decode?_take, (next_eq_none_iff.mp hnone).1, Option.filter_none]
    rw [readings_of_next_none hnone, records_of_next_none (next_eq_none_iff.mpr ⟨hcut, rfl⟩)]
    rfl
  | case2 r record r' hnext ih =>
    obtain ⟨n, hdecode, rfl⟩ := next_eq_some_iff.mp hnext
    have hcut := Record.decode?_take r.rest k
    rw [readings_of_next hnext]
    by_cases hends : n ≤ k
    · rw [hdecode, Option.filter_some_pos (by simpa using hends)] at hcut
      have hfirst : (r.upTo k).next = (some record, (Reader.mk (r.offset + n) (r.rest.drop n)).upTo (k - n)) :=
        next_eq_some_iff.mpr ⟨n, hcut, by simp only [upTo, List.drop_take]⟩
      have hbound : r.offset + n + (k - n) = r.offset + k := by omega
      rw [records_of_next hfirst, ih, List.takeWhile_cons_of_pos (by simpa using hends), List.map_cons, hbound]
    · rw [hdecode, Option.filter_some_neg (by simpa using hends)] at hcut
      rw [records_of_next_none (next_eq_none_iff.mpr ⟨hcut, rfl⟩), List.takeWhile_cons_of_neg (by simpa using hends)]
      rfl

/-! ### Call after call -/

/-- The reader after `count` calls. -/
def after (r : Reader) : (count : Nat) → Reader
  | 0 => r
  | count + 1 => r.next.2.after count

theorem after_add (r : Reader) (j k : Nat) : r.after (j + k) = (r.after j).after k := by
  induction j generalizing r with
  | zero => rw [Nat.zero_add]; rfl
  | succ j ih => rw [Nat.succ_add, after, ih, after]

theorem after_of_none {r : Reader} (h : r.next.1 = none) (count : Nat) : r.after count = r := by
  induction count with
  | zero => rfl
  | succ count ih => rw [after, next_eq_of_none h, ih]

/-- The calls yield the records one after another, and nothing once they are used up. -/
theorem next_after (r : Reader) (k : Nat) : (r.after k).next.1 = r.records[k]? := by
  induction k generalizing r with
  | zero =>
    rcases hnext : r.next with ⟨_ | record, r'⟩
    · rw [after, hnext, records_of_next_none hnext]; rfl
    · rw [after, hnext, records_of_next hnext]; rfl
  | succ k ih =>
    rcases hnext : r.next with ⟨_ | record, r'⟩
    · obtain ⟨-, rfl⟩ := next_eq_none_iff.mp hnext
      rw [after, hnext, ih, records_of_next_none hnext]; rfl
    · rw [after, hnext, ih, records_of_next hnext]; rfl

theorem last_eq_after (r : Reader) : r.last = r.after r.records.length := by
  induction r using readings.induct with
  | case1 r _ hnone => rw [last_of_next_none hnone, records_of_next_none hnone]; rfl
  | case2 r record r' hnext ih =>
    rw [last_of_next hnext, ih, records_of_next hnext, List.length_cons, after, hnext]

/-- A place in `image`: the bytes that are not read follow. -/
structure Within (image : List UInt8) (r : Reader) : Prop where
  offset_le : r.offset ≤ image.length
  rest_eq : r.rest = image.drop r.offset

theorem within_ofImage (image : List UInt8) : Within image (ofImage image) where
  offset_le := Nat.zero_le _
  rest_eq := rfl

namespace Within

variable {image : List UInt8} {r : Reader}

theorem next (h : Within image r) : Within image r.next.2 := by
  rcases hnext : r.next with ⟨_ | record, r'⟩
  · obtain ⟨-, rfl⟩ := next_eq_none_iff.mp hnext
    exact h
  · obtain ⟨n, hdecode, rfl⟩ := next_eq_some_iff.mp hnext
    have hlength := (Record.decode?_length hdecode).2
    rw [h.rest_eq, List.length_drop] at hlength
    have hle := h.offset_le
    refine ⟨?_, ?_⟩
    · show r.offset + n ≤ image.length
      omega
    · show r.rest.drop n = image.drop (r.offset + n)
      rw [h.rest_eq, List.drop_drop]

theorem after (h : Within image r) (count : Nat) : Within image (r.after count) := by
  induction count generalizing r with
  | zero => exact h
  | succ count ih => exact ih h.next

theorem length_rest (h : Within image r) : r.offset + r.rest.length = image.length := by
  have hle := h.offset_le
  rw [h.rest_eq, List.length_drop]
  omega

end Within

end Reader

/-! ### Images -/

theorem decodeImage_append (a b : List UInt8) :
    decodeImage (a ++ b) = decodeImage a ++ decodeImage ((Reader.ofImage a).last.rest ++ b) := by
  have hmore := (Reader.ofImage a).records_append b
  rw [← Reader.records_mk ((Reader.ofImage a).last.append b) 0] at hmore
  exact hmore

theorem decodeImage_take (a : List UInt8) (k : Nat) :
    decodeImage (a.take k) = ((Reader.ofImage a).readings.takeWhile (·.2.offset ≤ k)).map Prod.fst := by
  have hcut := (Reader.ofImage a).records_upTo k
  rw [show (Reader.ofImage a).offset + k = k from Nat.zero_add k] at hcut
  exact hcut

theorem within_last (a : List UInt8) : Reader.Within a (Reader.ofImage a).last := by
  rw [Reader.last_eq_after]
  exact (Reader.within_ofImage a).after _

/-- Records are read as their bytes come in: more bytes change none of them, and a cut only loses those that it
does not leave whole. A reader moves on with each record, never beyond its image, and stays where it stopped. -/
theorem reader_streams (a b : List UInt8) :
    decodeImage a <+: decodeImage (a ++ b) ∧
    ((Reader.ofImage a).last.offset = a.length → decodeImage (a ++ b) = decodeImage a ++ decodeImage b) ∧
    (∀ k, ((Reader.ofImage a).after k).offset ≤ a.length ∧
      ((Reader.ofImage a).after k).next.1 = (decodeImage a)[k]?) ∧
    (∀ k record r, ((Reader.ofImage a).after k).next = (some record, r) →
      r = (Reader.ofImage a).after (k + 1) ∧ ((Reader.ofImage a).after k).offset + 4 ≤ r.offset) ∧
    (∀ k, ((Reader.ofImage a).after k).next.1 = none → ∀ j, k ≤ j →
      ((Reader.ofImage a).after j).next.1 = none ∧
      ((Reader.ofImage a).after j).offset = ((Reader.ofImage a).after k).offset) ∧
    (Reader.ofImage a).last = (Reader.ofImage a).after (decodeImage a).length ∧
    (Reader.ofImage a).last.offset + (ObjectFile.ofImage a).trailing = a.length ∧
    ∀ k, decodeImage (a.take k) = ((Reader.ofImage a).readings.takeWhile (·.2.offset ≤ k)).map Prod.fst := by
  refine ⟨?_, ?_, ?_, ?_, ?_, Reader.last_eq_after _, (within_last a).length_rest, decodeImage_take a⟩
  · rw [decodeImage_append]
    exact List.prefix_append ..
  · intro hend
    have hrest : (Reader.ofImage a).last.rest = [] := by
      have hlength := (within_last a).length_rest
      exact List.eq_nil_of_length_eq_zero (by omega)
    rw [decodeImage_append, hrest, List.nil_append]
  · intro k
    exact ⟨((Reader.within_ofImage a).after k).offset_le, Reader.next_after _ k⟩
  · intro k record r hnext
    refine ⟨?_, ?_⟩
    · rw [Reader.after_add, Reader.after, hnext, Reader.after]
    · obtain ⟨n, hdecode, rfl⟩ := Reader.next_eq_some_iff.mp hnext
      exact Nat.add_le_add_left (Record.decode?_length hdecode).1 _
  · intro k hnone j hj
    obtain ⟨d, rfl⟩ := Nat.exists_eq_add_of_le hj
    rw [Reader.after_add, Reader.after_of_none hnone]
    exact ⟨hnone, rfl⟩

/-- A header and a text record, which loses the last byte of its payload. -/
theorem cut_payload_not_read :
    decodeImage [0, 84, 0, 0, 0, 0, 0, 0, 0, 0, 2, 0, 0, 1, 0, 0, 0, 2, 7, 8] =
      [.header "T" 0 2, .text 0 [7, 8]] ∧
    decodeImage [0, 84, 0, 0, 0, 0, 0, 0, 0, 0, 2, 0, 0, 1, 0, 0, 0, 2, 7] = [.header "T" 0 2] := by
  refine ⟨by decide +kernel, ?_⟩
  obtain ⟨-, -, -, -, -, -, -, hcut⟩ :=
    reader_streams [0, 84, 0, 0, 0, 0, 0, 0, 0, 0, 2, 0, 0, 1, 0, 0, 0, 2, 7, 8] []
  refine (hcut 19).trans ?_
  decide +kernel

end Tribyte
