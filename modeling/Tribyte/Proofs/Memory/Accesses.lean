import Mathlib.Data.Nat.Digits.Defs
import Tribyte.Proofs.Relocation.Field

/-! Sequences of accesses.

Accesses of every width see the same bytes. `byte_perform` says what one access makes of a byte and `byte_after` what a
sequence of them leaves: the byte that was last written there, or the one that stood there at first. A number that is
read is the one that these bytes spell, however they came there. -/
namespace Tribyte

/-! ### Bytes of numbers -/

theorem LittleEndian.getElem?_encode (count n i : Nat) :
    (encode count n)[i]? = if i < count then some (UInt8.ofNat (n / 256 ^ i)) else none := by
  induction count generalizing n i with
  | zero => simp [encode]
  | succ count ih =>
    cases i with
    | zero => simp [encode]
    | succ i =>
      rw [encode, List.getElem?_cons_succ, ih, Nat.div_div_eq_div_mul, ← Nat.pow_succ']
      simp

theorem LittleEndian.decode_eq_ofDigits (bytes : List UInt8) :
    decode bytes = Nat.ofDigits 256 (bytes.map UInt8.toNat) := by
  induction bytes with
  | nil => rfl
  | cons b rest ih => rw [decode, ih, List.map_cons, Nat.ofDigits_cons]

namespace Memory

theorem bytes_eq_map (m : Memory) (address count : Nat) :
    m.bytes address count = (List.range count).map fun i => m.byte (address + i) := by
  induction count generalizing address with
  | zero => rfl
  | succ count ih =>
    rw [bytes, ih, List.range_succ_eq_map, List.map_cons, List.map_map, Nat.add_zero]
    congr 2
    funext i
    show m.byte (address + 1 + i) = m.byte (address + (i + 1))
    rw [Nat.add_assoc, Nat.add_comm 1]

theorem field_eq_ofDigits (m : Memory) (address count : Nat) :
    m.field address count = Nat.ofDigits 256 ((List.range count).map fun i => (m.byte (address + i)).toNat) := by
  rw [field, LittleEndian.decode_eq_ofDigits, bytes_eq_map, List.map_map]
  rfl

end Memory

/-! ### One access -/

/-- A read or a write. A number takes up `count` bytes; a write cuts off what does not fit into them. -/
inductive Access
  | read (count address : Nat)
  | write (count address value : Nat)
  | writeBytes (address : Nat) (bytes : List UInt8)
  deriving DecidableEq, Repr

namespace Access

def address : Access → Nat
  | read _ address => address
  | write _ address _ => address
  | writeBytes address _ => address

/-- How many bytes are read or written. -/
def length : Access → Nat
  | read count _ => count
  | write count _ _ => count
  | writeBytes _ bytes => bytes.length

/-- The bytes that are written. -/
def payload : Access → List UInt8
  | read _ _ => []
  | write count _ value => LittleEndian.encode count value
  | writeBytes _ bytes => bytes

/-- The byte that a write puts at `x`. Of a number, the lowest comes first. -/
def put? (a : Access) (x : Nat) : Option UInt8 :=
  match a with
  | read _ _ => none
  | write count address value =>
    if address ≤ x ∧ x < address + count then some (UInt8.ofNat (value / 256 ^ (x - address))) else none
  | writeBytes address bytes => if address ≤ x then bytes[x - address]? else none

theorem put?_eq (a : Access) (x : Nat) :
    a.put? x = if a.address ≤ x then a.payload[x - a.address]? else none := by
  cases a with
  | read count address => simp [put?, payload]
  | write count address value =>
    show _ = if address ≤ x then (LittleEndian.encode count value)[x - address]? else none
    rw [put?, LittleEndian.getElem?_encode]
    by_cases hbelow : address ≤ x
    · have hinside : x < address + count ↔ x - address < count := by omega
      simp only [hbelow, hinside, true_and, if_true]
    · simp [hbelow]
  | writeBytes address bytes => rfl

/-- The same in a memory of `size` bytes, where a write that does not end inside puts nothing. -/
def putWithin? (a : Access) (size x : Nat) : Option UInt8 :=
  if a.address + a.length ≤ size then a.put? x else none

/-- The byte that was last put at `x`. -/
def lastPut? (accesses : List Access) (size x : Nat) : Option UInt8 :=
  accesses.reverse.findSome? fun a => a.putWithin? size x

theorem lastPut?_cons (a : Access) (accesses : List Access) (size x : Nat) :
    lastPut? (a :: accesses) size x = (lastPut? accesses size x).or (a.putWithin? size x) := by
  rw [lastPut?, List.reverse_cons, List.findSome?_append, List.findSome?_singleton]
  rfl

end Access

namespace Memory

/-- What an access answers, a read with its number, and the memory that it leaves. -/
def perform (m : Memory) : Access → Except AccessError (Option Nat) × Memory
  | .read count address => ((m.read count address).map some, m)
  | .write count address value => (m.write count address value).map (·.map fun _ => none) id
  | .writeBytes address bytes => (m.writeBytes address bytes).map (·.map fun _ => none) id

variable {m : Memory} {a : Access}

theorem perform_of_lt (h : m.size < a.address + a.length) :
    m.perform a = (.error ⟨a.length, a.address, m.size⟩, m) := by
  cases a with
  | read count address =>
    have houtside : ¬address + count ≤ m.size := Nat.not_le.mpr h
    rw [perform, read_eq_error houtside]
    rfl
  | write count address value =>
    have houtside : ¬address + count ≤ m.size := Nat.not_le.mpr h
    rw [perform, write_eq_error houtside]
    rfl
  | writeBytes address bytes =>
    have houtside : ¬address + bytes.length ≤ m.size := Nat.not_le.mpr h
    rw [perform, writeBytes_eq_error houtside]
    rfl

theorem perform_read {count address : Nat} (h : address + count ≤ m.size) :
    m.perform (.read count address) = (.ok (some (m.field address count)), m) := by
  rw [perform, read_eq_ok h]
  rfl

theorem perform_write {count address : Nat} (h : address + count ≤ m.size) (value : Nat) :
    m.perform (.write count address value) = (.ok none, m.fill address (LittleEndian.encode count value)) := by
  rw [perform, write_eq_ok h]
  rfl

theorem perform_of_le (h : a.address + a.length ≤ m.size) :
    ∃ answer, m.perform a = (.ok answer, m.fill a.address a.payload) := by
  cases a with
  | read count address => exact ⟨_, perform_read h⟩
  | write count address value => exact ⟨_, perform_write h value⟩
  | writeBytes address bytes =>
    have hinside : address + bytes.length ≤ m.size := h
    refine ⟨none, ?_⟩
    rw [perform, writeBytes_eq_ok hinside]
    rfl

theorem lt_of_perform {e : AccessError} (h : (m.perform a).1 = .error e) : m.size < a.address + a.length := by
  apply Nat.lt_of_not_le
  intro hinside
  obtain ⟨answer, hok⟩ := perform_of_le hinside
  rw [hok] at h
  cases h

theorem le_of_perform {answer : Option Nat} (h : (m.perform a).1 = .ok answer) : a.address + a.length ≤ m.size := by
  apply Nat.le_of_not_lt
  intro houtside
  rw [perform_of_lt houtside] at h
  cases h

@[simp] theorem size_perform (m : Memory) (a : Access) : (m.perform a).2.size = m.size := by
  by_cases hfits : a.address + a.length ≤ m.size
  · obtain ⟨answer, h⟩ := perform_of_le hfits
    rw [h, size_fill]
  · rw [perform_of_lt (Nat.lt_of_not_le hfits)]

theorem byte_perform (m : Memory) (a : Access) (x : Nat) :
    (m.perform a).2.byte x = (a.putWithin? m.size x).getD (m.byte x) := by
  by_cases hfits : a.address + a.length ≤ m.size
  · obtain ⟨answer, h⟩ := perform_of_le hfits
    rw [h, byte_fill, Access.putWithin?, if_pos hfits, Access.put?_eq, List.getD_eq_getElem?_getD]
    split <;> rfl
  · rw [perform_of_lt (Nat.lt_of_not_le hfits), Access.putWithin?, if_neg hfits, Option.getD_none]

/-! ### Sequences -/

/-- The memory that a sequence of accesses leaves, each made whether or not those before it failed. -/
def after (m : Memory) (accesses : List Access) : Memory := accesses.foldl (fun m a => (m.perform a).2) m

@[simp] theorem size_after (m : Memory) (accesses : List Access) : (m.after accesses).size = m.size := by
  induction accesses generalizing m with
  | nil => rfl
  | cons a rest ih =>
    show ((m.perform a).2.after rest).size = m.size
    rw [ih, size_perform]

/-- Each byte is the one that was last written there, or the one that stood there at first. -/
theorem byte_after (m : Memory) (accesses : List Access) (x : Nat) :
    (m.after accesses).byte x = (Access.lastPut? accesses m.size x).getD (m.byte x) := by
  induction accesses generalizing m with
  | nil => rfl
  | cons a rest ih =>
    show ((m.perform a).2.after rest).byte x = _
    rw [ih, size_perform, byte_perform, Access.lastPut?_cons]
    cases Access.lastPut? rest m.size x with
    | none => rfl
    | some b => rfl

theorem after_concat (m : Memory) (earlier : List Access) (a : Access) :
    m.after (earlier ++ [a]) = ((m.after earlier).perform a).2 := by
  rw [after, List.foldl_append]
  rfl

theorem field_after (m : Memory) (accesses : List Access) (address count : Nat) :
    (m.after accesses).field address count = Nat.ofDigits 256 ((List.range count).map fun i =>
      ((Access.lastPut? accesses m.size (address + i)).getD (m.byte (address + i))).toNat) := by
  rw [field_eq_ofDigits]
  simp only [byte_after]

/-- Accesses of every width see one array of bytes, whose size never changes. After any others an access fails exactly
if it does not end inside, and then it changes nothing; a write puts its own bytes in their places and leaves all others;
a read gives the number that is spelled by the bytes last written there, or there at first. -/
theorem accesses_share_bytes (m : Memory) (earlier : List Access) (a : Access) :
    (m.after earlier).size = m.size ∧
    ((∃ e, ((m.after earlier).perform a).1 = .error e) ↔ m.size < a.address + a.length) ∧
    (∀ e, ((m.after earlier).perform a).1 = .error e →
      e = ⟨a.length, a.address, m.size⟩ ∧ m.after (earlier ++ [a]) = m.after earlier) ∧
    (∀ answer, ((m.after earlier).perform a).1 = .ok answer →
      ∀ x, (m.after (earlier ++ [a])).byte x = (a.put? x).getD ((m.after earlier).byte x)) ∧
    (∀ count address value, address + count ≤ m.size →
      (m.after (earlier ++ [.write count address value])).read count address = .ok (value % 256 ^ count)) ∧
    ∀ count address, address + count ≤ m.size →
      (m.after earlier).perform (.read count address) = (.ok (some (Nat.ofDigits 256 ((List.range count).map fun i =>
        ((Access.lastPut? earlier m.size (address + i)).getD (m.byte (address + i))).toNat))), m.after earlier) := by
  have hsize := size_after m earlier
  simp only [after_concat]
  refine ⟨hsize, ⟨?_, ?_⟩, ?_, ?_, ?_, ?_⟩
  · rintro ⟨e, he⟩
    exact hsize ▸ lt_of_perform he
  · intro houtside
    exact ⟨_, congrArg Prod.fst (perform_of_lt (hsize.symm ▸ houtside))⟩
  · intro e he
    have houtside := lt_of_perform he
    rw [perform_of_lt houtside, hsize] at he ⊢
    cases he
    exact ⟨rfl, rfl⟩
  · intro answer hok x
    rw [byte_perform, Access.putWithin?, if_pos (le_of_perform hok)]
  · intro count address value hinside
    rw [perform_write (hsize.symm ▸ hinside), read_eq_ok (by rwa [size_fill, hsize])]
    exact congrArg Except.ok (field_fill ..)
  · intro count address hinside
    rw [perform_read (hsize.symm ▸ hinside), field_after]

/-- A number that is cut, a byte written into it, and a write that does not end inside. -/
def overlapping : List Access := [.write 3 4 0x12345678, .writeBytes 5 [0xAB], .write 2 7 0xFFFF]

/-- Reads that overlap the writes see what each has left; no bytes can be written where memory ends, but not behind. -/
theorem overlapping_accesses_seen :
    ((zeroed 8).after overlapping).perform (.read 2 4) = (.ok (some 0xAB78), (zeroed 8).after overlapping) ∧
    ((zeroed 8).after overlapping).perform (.read 3 5) = (.ok (some 0x0034AB), (zeroed 8).after overlapping) ∧
    ((zeroed 8).after (overlapping ++ [.write 3 5 0xFF000001])).read 3 5 = .ok 1 ∧
    (∃ e, (((zeroed 8).after overlapping).perform (.writeBytes 9 [])).1 = .error e) ∧
    ¬∃ e, (((zeroed 8).after overlapping).perform (.writeBytes 8 [])).1 = .error e := by
  obtain ⟨-, hbehind, -, -, hwrite, hread⟩ := accesses_share_bytes (zeroed 8) overlapping (.writeBytes 9 [])
  obtain ⟨-, hend, -⟩ := accesses_share_bytes (zeroed 8) overlapping (.writeBytes 8 [])
  refine ⟨?_, ?_, ?_, ?_, ?_⟩
  · rw [hread 2 4 (by decide)]
    rfl
  · rw [hread 3 5 (by decide)]
    rfl
  · rw [hwrite 3 5 _ (by decide)]
    rfl
  · exact hbehind.mpr (by decide)
  · rw [hend]
    decide

end Memory

end Tribyte
