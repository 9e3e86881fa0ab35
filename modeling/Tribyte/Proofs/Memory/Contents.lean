import Tribyte.Memory

/-! What a memory holds, byte by byte.

`byte_fill` says what every byte is after bytes are put in place; all else here follows from it. `Laid` says
that a memory differs from an earlier one by segments that it holds, and how such differences combine. -/
namespace Tribyte.Memory

theorem byte_fill (m : Memory) (address other : Nat) (bs : List UInt8) :
    (m.fill address bs).byte other =
      if address ≤ other then bs.getD (other - address) (m.byte other) else m.byte other := by
  induction bs generalizing m address with
  | nil => simp [fill]
  | cons b rest ih =>
    rw [fill, ih, byte_set]
    by_cases hsame : address = other
    · rw [if_neg (by omega), if_pos hsame, if_pos (by omega), hsame, Nat.sub_self, List.getD_cons_zero]
    · by_cases hbelow : address ≤ other
      · have hindex : other - address = other - (address + 1) + 1 := by omega
        rw [if_neg hsame, if_pos (by omega), if_pos hbelow, hindex, List.getD_cons_succ]
      · rw [if_neg hsame, if_neg (by omega), if_neg hbelow]

/-- A byte before or after the bytes that are put in place stays. -/
theorem byte_fill_of_outside (m : Memory) {address other : Nat} {bs : List UInt8}
    (h : ¬(address ≤ other ∧ other < address + bs.length)) :
    (m.fill address bs).byte other = m.byte other := by
  rw [byte_fill]
  split
  · rw [List.getD_eq_getElem?_getD, List.getElem?_eq_none (by omega), Option.getD_none]
  · rfl

theorem fill_append (m : Memory) (address : Nat) (bs cs : List UInt8) :
    m.fill address (bs ++ cs) = (m.fill address bs).fill (address + bs.length) cs := by
  induction bs generalizing m address with
  | nil => rfl
  | cons b rest ih =>
    rw [List.cons_append, fill, ih, fill, List.length_cons, Nat.add_assoc, Nat.add_comm 1]

/-! ### Strings of bytes -/

@[simp] theorem length_bytes (m : Memory) (address count : Nat) :
    (m.bytes address count).length = count := by
  induction count generalizing address with
  | zero => rfl
  | succ count ih => rw [bytes, List.length_cons, ih]

theorem bytes_congr {m n : Memory} {address other count : Nat}
    (h : ∀ i, i < count → m.byte (address + i) = n.byte (other + i)) :
    m.bytes address count = n.bytes other count := by
  induction count generalizing address other with
  | zero => rfl
  | succ count ih =>
    rw [bytes, bytes, ← Nat.add_zero address, ← Nat.add_zero other, h 0 (by omega)]
    congr 1
    apply ih
    intro i hi
    have := h (i + 1) (by omega)
    simpa only [Nat.add_zero, Nat.add_assoc, Nat.add_comm 1 i] using this

theorem byte_of_getElem? {m : Memory} {address count k : Nat} {b : UInt8}
    (h : (m.bytes address count)[k]? = some b) : m.byte (address + k) = b := by
  induction count generalizing address k with
  | zero => cases h
  | succ count ih =>
    cases k with
    | zero => exact Option.some.inj h
    | succ k =>
      rw [Nat.add_comm k, ← Nat.add_assoc]
      exact ih h

theorem bytes_append (m : Memory) (address count more : Nat) :
    m.bytes address (count + more) = m.bytes address count ++ m.bytes (address + count) more := by
  induction count generalizing address with
  | zero => rw [Nat.zero_add]; rfl
  | succ count ih =>
    rw [Nat.succ_add, bytes, ih, bytes, List.cons_append, Nat.add_assoc, Nat.add_comm 1]

/-- Equal strings hold equal bytes. -/
theorem byte_eq_of_bytes_eq {m n : Memory} {address other count : Nat}
    (h : m.bytes address count = n.bytes other count) {i : Nat} (hi : i < count) :
    m.byte (address + i) = n.byte (other + i) := by
  induction count generalizing address other i with
  | zero => exact absurd hi (Nat.not_lt_zero i)
  | succ count ih =>
    rw [bytes, bytes, List.cons.injEq] at h
    cases i with
    | zero => exact h.1
    | succ i =>
      have := ih h.2 (i := i) (by omega)
      simpa only [Nat.add_assoc, Nat.add_comm 1 i] using this

/-- What is put in place is there. -/
theorem bytes_fill (m : Memory) (address : Nat) (bs : List UInt8) :
    (m.fill address bs).bytes address bs.length = bs := by
  induction bs generalizing m address with
  | nil => rfl
  | cons b rest ih =>
    have hfirst : ((m.set address b).fill (address + 1) rest).byte address = b := by
      rw [byte_fill_of_outside _ (by omega), byte_set, if_pos rfl]
    rw [List.length_cons, bytes, fill, hfirst, ih]

theorem bytes_fill_of_apart (m : Memory) {address other count : Nat} {bs : List UInt8}
    (h : other + count ≤ address ∨ address + bs.length ≤ other) :
    (m.fill address bs).bytes other count = m.bytes other count := by
  apply bytes_congr
  intro i hi
  exact byte_fill_of_outside m (by omega)

/-! ### Checked access -/

theorem read_eq_ok {m : Memory} {count address : Nat} (h : address + count ≤ m.size) :
    m.read count address = .ok (LittleEndian.decode (m.bytes address count)) := by
  rw [read, if_pos h]

theorem read_eq_error {m : Memory} {count address : Nat} (h : ¬address + count ≤ m.size) :
    m.read count address = .error ⟨count, address, m.size⟩ := by
  rw [read, if_neg h]

theorem writeBytes_eq_ok {m : Memory} {address : Nat} {bs : List UInt8} (h : address + bs.length ≤ m.size) :
    m.writeBytes address bs = (.ok (), m.fill address bs) := by
  rw [writeBytes, if_pos h]

theorem writeBytes_eq_error {m : Memory} {address : Nat} {bs : List UInt8} (h : ¬address + bs.length ≤ m.size) :
    m.writeBytes address bs = (.error ⟨bs.length, address, m.size⟩, m) := by
  rw [writeBytes, if_neg h]

theorem writeBytes_eq_ok_iff {m n : Memory} {address : Nat} {bs : List UInt8} :
    m.writeBytes address bs = (.ok (), n) ↔ address + bs.length ≤ m.size ∧ n = m.fill address bs := by
  by_cases h : address + bs.length ≤ m.size
  · simp [writeBytes_eq_ok h, h, eq_comm]
  · simp [writeBytes_eq_error h, h]

theorem write_eq_ok {m : Memory} {count address : Nat} (h : address + count ≤ m.size) (value : Nat) :
    m.write count address value = (.ok (), m.fill address (LittleEndian.encode count value)) :=
  writeBytes_eq_ok (by rwa [LittleEndian.length_encode])

theorem write_eq_error {m : Memory} {count address : Nat} (h : ¬address + count ≤ m.size) (value : Nat) :
    m.write count address value = (.error ⟨count, address, m.size⟩, m) := by
  have hlength := LittleEndian.length_encode count value
  rw [write, writeBytes_eq_error (by rwa [hlength]), hlength]

@[simp] theorem size_write (m : Memory) (count address value : Nat) :
    (m.write count address value).2.size = m.size := by
  by_cases h : address + count ≤ m.size
  · rw [write_eq_ok h, size_fill]
  · rw [write_eq_error h]

/-! ### Segments -/

/-- A string of bytes and the address of its first. -/
structure Segment where
  address : Nat
  bytes : List UInt8

namespace Segment

def Covers (s : Segment) (x : Nat) : Prop := s.address ≤ x ∧ x < s.address + s.bytes.length

def Apart (s t : Segment) : Prop :=
  s.address + s.bytes.length ≤ t.address ∨ t.address + t.bytes.length ≤ s.address

end Segment

/-- `n` is `m` with segments put in place. -/
structure Laid (m n : Memory) (segments : List Segment) : Prop where
  size : n.size = m.size
  held : ∀ s ∈ segments, n.bytes s.address s.bytes.length = s.bytes
  kept : ∀ x, (∀ s ∈ segments, ¬s.Covers x) → n.byte x = m.byte x

theorem laid_nil (m : Memory) : Laid m m [] where
  size := rfl
  held := by simp
  kept := fun _ _ => rfl

/-- A segment that is already there. -/
theorem laid_self {m : Memory} {s : Segment} (h : m.bytes s.address s.bytes.length = s.bytes) : Laid m m [s] where
  size := rfl
  held := by
    intro t ht
    rw [List.mem_singleton.mp ht]
    exact h
  kept := fun _ _ => rfl

theorem laid_fill (m : Memory) (address : Nat) (bs : List UInt8) : Laid m (m.fill address bs) [⟨address, bs⟩] where
  size := size_fill m address bs
  held := by
    intro s hs
    rw [List.mem_singleton.mp hs]
    exact bytes_fill m address bs
  kept := by
    intro x hx
    exact byte_fill_of_outside m (hx _ (List.mem_singleton_self _))

/-- The bytes after the first of a segment. -/
theorem laid_fill_succ (m : Memory) (address : Nat) (bs : List UInt8) :
    Laid m (m.fill (address + 1) bs) [⟨address, m.byte address :: bs⟩] where
  size := size_fill m (address + 1) bs
  held := by
    intro s hs
    rw [List.mem_singleton.mp hs]
    show (m.fill (address + 1) bs).byte address :: (m.fill (address + 1) bs).bytes (address + 1) bs.length = _
    rw [byte_fill_of_outside m (by omega), bytes_fill]
  kept := by
    intro x hx
    apply byte_fill_of_outside m
    have := hx _ (List.mem_singleton_self _)
    simp only [Segment.Covers, List.length_cons] at this
    omega

namespace Laid

variable {m n p : Memory} {ss ts : List Segment} {s t : Segment}

theorem bytes_of_apart (h : Laid m n ts) (hapart : ∀ t ∈ ts, s.Apart t) :
    n.bytes s.address s.bytes.length = m.bytes s.address s.bytes.length := by
  apply bytes_congr
  intro i hi
  apply h.kept
  intro t ht hcovers
  have := hapart t ht
  unfold Segment.Covers at hcovers
  unfold Segment.Apart at this
  omega

theorem append (hss : Laid m n ss) (hts : Laid n p ts) (hapart : ∀ s ∈ ss, ∀ t ∈ ts, s.Apart t) :
    Laid m p (ss ++ ts) where
  size := hts.size.trans hss.size
  held := by
    intro u hu
    rcases List.mem_append.mp hu with hu | hu
    · rw [hts.bytes_of_apart (hapart u hu), hss.held u hu]
    · exact hts.held u hu
  kept := by
    intro x hx
    rw [hts.kept x fun u hu => hx u (List.mem_append_right ss hu),
      hss.kept x fun u hu => hx u (List.mem_append_left ts hu)]

/-- A segment that is overwritten by another of its length. -/
theorem replace (h : Laid m n (ss ++ s :: ts)) (hstep : Laid n p [t]) (haddress : t.address = s.address)
    (hlength : t.bytes.length = s.bytes.length) (hapart : ∀ u ∈ ss ++ ts, u.Apart s) :
    Laid m p (ss ++ t :: ts) where
  size := hstep.size.trans h.size
  held := by
    intro u hu
    have hothers : u ∈ ss ++ ts → p.bytes u.address u.bytes.length = u.bytes := by
      intro hu
      have hut : ∀ v ∈ [t], u.Apart v := by
        intro v hv
        rw [List.mem_singleton.mp hv]
        unfold Segment.Apart
        rw [haddress, hlength]
        exact hapart u hu
      have hmem : u ∈ ss ++ s :: ts := by grind
      rw [hstep.bytes_of_apart hut, h.held u hmem]
    rcases List.mem_append.mp hu with hu | hu
    · exact hothers (List.mem_append_left ts hu)
    · rcases List.mem_cons.mp hu with rfl | hu
      · exact hstep.held u (List.mem_singleton_self u)
      · exact hothers (List.mem_append_right ss hu)
  kept := by
    intro x hx
    have hcovers : t.Covers x ↔ s.Covers x := by
      unfold Segment.Covers
      rw [haddress, hlength]
    rw [hstep.kept x, h.kept x]
    · intro u hu
      rcases List.mem_append.mp hu with hu | hu
      · exact hx u (List.mem_append_left _ hu)
      · rcases List.mem_cons.mp hu with rfl | hu
        · exact fun hu => hx t (by simp) (hcovers.mpr hu)
        · exact hx u (List.mem_append_right ss (List.mem_cons_of_mem t hu))
    · intro u hu
      rw [List.mem_singleton.mp hu]
      exact hx t (by simp)

end Laid

end Tribyte.Memory
