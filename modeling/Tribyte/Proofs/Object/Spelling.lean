import Tribyte.Object.Record

/-! The bytes from which records are read.

A record is read exactly where bytes that spell it stand in front (`decode?_eq_some_iff`). So what follows them
does not matter (`decode?_append`), and from a front part of some bytes the record is read that is read from all
of them, if it ends in time (`decode?_take`). -/
namespace Tribyte

theorem LittleEndian.decode_singleton (b : UInt8) : decode [b] = b.toNat := by
  simp [decode]

theorem LittleEndian.toUInt8_decode_singleton (b : UInt8) : (decode [b]).toUInt8 = b := by
  simp [decode]

namespace Record

/-- The bytes that are read as a record. -/
inductive Spells : List UInt8 → Record → Prop where
  | header {name start length : List UInt8} (hname : name.length = nameSize) (hstart : start.length = 3)
      (hlength : length.length = 3) :
      Spells (0 :: (name ++ start ++ length))
        (header (readName name) (LittleEndian.decode start) (LittleEndian.decode length))
  | text {start payload : List UInt8} {count : UInt8} (hstart : start.length = 3)
      (hpayload : payload.length = count.toNat) :
      Spells (1 :: (start ++ [count] ++ payload)) (text (LittleEndian.decode start) payload)
  | modification {address : List UInt8} (length : UInt8) (haddress : address.length = 3) :
      Spells (3 :: (address ++ [length])) (modification (LittleEndian.decode address) length)
  | finish {entry : List UInt8} (hentry : entry.length = 3) :
      Spells (2 :: entry) (finish (LittleEndian.decode entry))

/-! ### Fields -/

theorem take?_append {count : Nat} {front : List UInt8} (rest : List UInt8) (h : front.length = count) :
    take? count (front ++ rest) = some (front, rest) := take?_eq_some_iff.mpr ⟨rfl, h⟩

theorem take?_one (b : UInt8) (rest : List UInt8) : take? 1 (b :: rest) = some ([b], rest) :=
  take?_eq_some_iff.mpr ⟨rfl, rfl⟩

/-! ### Records -/

theorem readHeader?_eq_some {body : List UInt8} {r : Record} {n : Nat} (h : readHeader? body = some (r, n)) :
    ∃ front rest, 0 :: body = front ++ rest ∧ front.length = n ∧ Spells front r := by
  simp only [readHeader?, bind, Option.bind_eq_some_iff, Prod.exists, take?_eq_some_iff, pure,
    Option.some.injEq, Prod.mk.injEq] at h
  obtain ⟨name, _, ⟨rfl, hname⟩, start, _, ⟨rfl, hstart⟩, length, rest, ⟨rfl, hlength⟩, rfl, rfl⟩ := h
  refine ⟨0 :: (name ++ start ++ length), rest, ?_, ?_, .header hname hstart hlength⟩
  · simp
  · simp [hname, hstart, hlength, nameSize]

theorem readTextRecord?_eq_some {body : List UInt8} {r : Record} {n : Nat}
    (h : readTextRecord? body = some (r, n)) :
    ∃ front rest, 1 :: body = front ++ rest ∧ front.length = n ∧ Spells front r := by
  simp only [readTextRecord?, bind, Option.bind_eq_some_iff, Prod.exists, take?_eq_some_iff, pure,
    Option.some.injEq, Prod.mk.injEq] at h
  obtain ⟨start, _, ⟨rfl, hstart⟩, count, _, ⟨rfl, hcount⟩, payload, rest, ⟨rfl, hpayload⟩, rfl, rfl⟩ := h
  obtain ⟨count, rfl⟩ := List.length_eq_one_iff.mp hcount
  rw [LittleEndian.decode_singleton] at hpayload ⊢
  refine ⟨1 :: (start ++ [count] ++ payload), rest, ?_, ?_, .text hstart hpayload⟩
  · simp
  · simp [hstart, hpayload]
    omega

theorem readModification?_eq_some {body : List UInt8} {r : Record} {n : Nat}
    (h : readModification? body = some (r, n)) :
    ∃ front rest, 3 :: body = front ++ rest ∧ front.length = n ∧ Spells front r := by
  simp only [readModification?, bind, Option.bind_eq_some_iff, Prod.exists, take?_eq_some_iff, pure,
    Option.some.injEq, Prod.mk.injEq] at h
  obtain ⟨address, _, ⟨rfl, haddress⟩, length, rest, ⟨rfl, hlength⟩, rfl, rfl⟩ := h
  obtain ⟨length, rfl⟩ := List.length_eq_one_iff.mp hlength
  rw [LittleEndian.toUInt8_decode_singleton]
  refine ⟨3 :: (address ++ [length]), rest, ?_, ?_, .modification length haddress⟩
  · simp
  · simp [haddress]

theorem readFinish?_eq_some {body : List UInt8} {r : Record} {n : Nat} (h : readFinish? body = some (r, n)) :
    ∃ front rest, 2 :: body = front ++ rest ∧ front.length = n ∧ Spells front r := by
  simp only [readFinish?, bind, Option.bind_eq_some_iff, Prod.exists, take?_eq_some_iff, pure,
    Option.some.injEq, Prod.mk.injEq] at h
  obtain ⟨entry, rest, ⟨rfl, hentry⟩, rfl, rfl⟩ := h
  exact ⟨2 :: entry, rest, rfl, by simp [hentry], .finish hentry⟩

/-- What spells a record is read as this record, whatever follows. -/
theorem Spells.decode?_append {front : List UInt8} {r : Record} (h : Spells front r) (rest : List UInt8) :
    decode? (front ++ rest) = some (r, front.length) := by
  cases h with
  | @header name start length hname hstart hlength =>
    show readHeader? (name ++ start ++ length ++ rest) = _
    simp only [readHeader?, List.append_assoc, bind, take?_append _ hname, take?_append _ hstart,
      take?_append _ hlength, Option.bind_some]
    simp [hname, hstart, hlength, nameSize]
  | @text start payload count hstart hpayload =>
    show readTextRecord? (start ++ [count] ++ payload ++ rest) = _
    simp only [readTextRecord?, List.append_assoc, List.cons_append, List.nil_append, bind, take?_append _ hstart,
      take?_one, LittleEndian.decode_singleton, take?_append _ hpayload, Option.bind_some]
    simp [hstart, hpayload]
    omega
  | @modification address length haddress =>
    show readModification? (address ++ [length] ++ rest) = _
    simp only [readModification?, List.append_assoc, List.cons_append, List.nil_append, bind,
      take?_append _ haddress, take?_one, LittleEndian.toUInt8_decode_singleton, Option.bind_some]
    simp [haddress]
  | @finish entry hentry =>
    show readFinish? (entry ++ rest) = _
    simp only [readFinish?, bind, take?_append _ hentry, Option.bind_some]
    simp [hentry]

/-- A record is read where bytes that spell it stand in front, and it takes these bytes. -/
theorem decode?_eq_some_iff {bytes : List UInt8} {r : Record} {n : Nat} :
    decode? bytes = some (r, n) ↔ ∃ front rest, bytes = front ++ rest ∧ front.length = n ∧ Spells front r := by
  constructor
  · intro h
    cases bytes with
    | nil => cases h
    | cons tag body =>
      simp only [decode?] at h
      split at h
      · subst tag
        exact readHeader?_eq_some h
      split at h
      · subst tag
        exact readTextRecord?_eq_some h
      split at h
      · subst tag
        exact readFinish?_eq_some h
      split at h
      · subst tag
        exact readModification?_eq_some h
      · cases h
  · rintro ⟨front, rest, rfl, rfl, hspells⟩
    exact hspells.decode?_append rest

/-! ### More bytes and fewer -/

theorem decode?_append {bytes : List UInt8} {r : Record} {n : Nat} (h : decode? bytes = some (r, n))
    (more : List UInt8) : decode? (bytes ++ more) = some (r, n) := by
  obtain ⟨front, rest, rfl, rfl, hspells⟩ := decode?_eq_some_iff.mp h
  rw [List.append_assoc]
  exact hspells.decode?_append (rest ++ more)

/-- Of the first `k` bytes a record is read exactly where it ends among them. -/
theorem decode?_take (bytes : List UInt8) (k : Nat) :
    decode? (bytes.take k) = (decode? bytes).filter (·.2 ≤ k) := by
  apply Option.ext
  rintro ⟨r, n⟩
  rw [Option.filter_eq_some_iff, decide_eq_true_iff]
  constructor
  · intro h
    have hall := decode?_append h (bytes.drop k)
    have hlength := (decode?_length h).2
    rw [List.take_append_drop] at hall
    rw [List.length_take] at hlength
    exact ⟨hall, Nat.le_trans hlength (Nat.min_le_left ..)⟩
  · rintro ⟨h, hn⟩
    obtain ⟨front, rest, rfl, rfl, hspells⟩ := decode?_eq_some_iff.mp h
    rw [List.take_append, List.take_of_length_le hn]
    exact hspells.decode?_append _

end Record

end Tribyte
