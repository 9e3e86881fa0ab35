import Mathlib.Algebra.Group.Nat.Defs
import Tribyte.Proofs.Loading.Replay

/-! Relocating one field.

Relocation reads a field from its highest byte down, adds to it and writes it back. `relocate_eq_cases` says what comes
of that for every length and wherever the field lies: it is outside memory, or the sum is too great for it, or the sum
is written. `relocation_exact` draws the consequences. Numbers are added exactly, with nothing cut off; the index flag
of an instruction and every byte outside the field are kept; a refused relocation writes nothing. -/
namespace Tribyte

/-! ### What a field holds -/

/-- The number in the field of `length` bytes at `address`. -/
def Memory.field (m : Memory) (address length : Nat) : Nat := LittleEndian.decode (m.bytes address length)

/-- The part of a field that is relocated: of two bytes the address below the index flag, otherwise all of it. -/
def Memory.movable (m : Memory) (address length : Nat) : Nat :=
  if length = 2 then m.field address length % 0x8000 else m.field address length

/-- The greatest number that the movable part of a field can hold. -/
def movableLimit (length : Nat) : Nat := if length = 2 then 0x7FFF else 256 ^ length - 1

theorem LittleEndian.bound_eq (count : Nat) : bound count = 256 ^ count := by
  induction count with
  | zero => rfl
  | succ count ih => rw [bound, ih, Nat.pow_succ, Nat.mul_comm]

theorem Memory.field_lt (m : Memory) (address length : Nat) : m.field address length < 256 ^ length := by
  have := LittleEndian.decode_lt (m.bytes address length)
  rwa [length_bytes, LittleEndian.bound_eq] at this

theorem greatestInField_eq (length : Nat) : greatestInField length = movableLimit length := by
  rw [greatestInField, movableLimit, LittleEndian.bound_eq]
  rfl

theorem Memory.mod_greatestInField (m : Memory) (address length : Nat) :
    m.field address length % (greatestInField length + 1) = m.movable address length := by
  have hlt := m.field_lt address length
  rw [greatestInField_eq, movableLimit, movable]
  split
  · rfl
  · exact Nat.mod_eq_of_lt (by omega)

/-- A field holds what is written to it, cut to its length. -/
theorem Memory.field_fill (m : Memory) (address length value : Nat) :
    (m.fill address (LittleEndian.encode length value)).field address length = value % 256 ^ length := by
  have hbytes := m.bytes_fill address (LittleEndian.encode length value)
  rw [LittleEndian.length_encode] at hbytes
  rw [field, hbytes, LittleEndian.decode_encode, LittleEndian.bound_eq]

/-- Instructions are read off their code and the field behind it. -/
theorem Memory.decode?_bytes (m : Memory) (here : Nat) :
    Instruction.decode? (m.bytes here 3) = (Opcode.ofCode? (m.byte here)).map fun opcode =>
      ⟨opcode, 0x8000 ≤ m.field (here + 1) 2, m.field (here + 1) 2 % 0x8000⟩ := rfl

/-! ### One field -/

theorem readDown_eq_error {m : Memory} {address count : Nat} (hwide : address + count < 0x100000000)
    (h : m.size ≤ address + count) (high : Nat) :
    readDown m address (count + 1) high = .error ⟨1, address + count, m.size⟩ := by
  rw [readDown, wrapAddress_of_lt hwide, Memory.read_eq_error (by omega)]

/-- The three ways in which a relocation can end. -/
theorem relocate_eq_cases (m : Memory) {address length : Nat} (hlength : 1 ≤ length)
    (hwide : address + length ≤ 0x100000000) (delta : Nat) :
    relocate m address length delta =
      if m.size < address + length then (.error (.outOfBounds address length ⟨1, address + length - 1, m.size⟩), m)
      else if movableLimit length < m.movable address length + delta then
        (.error (.relocationOverflow address
          ((m.movable address length + delta) % LittleEndian.bound fieldLimit) (movableLimit length)), m)
      else (.ok (), m.fill address (LittleEndian.encode length (m.field address length + delta))) := by
  split
  · -- The highest byte is read first, and it is outside memory.
    obtain ⟨count, rfl⟩ := Nat.exists_eq_add_of_le' hlength
    rw [relocate, readDown_eq_error (by omega) (by omega)]
    rfl
  · rw [relocate_eq hwide (by omega) rfl (m.mod_greatestInField address length), greatestInField_eq]
    rfl

/-- `n` is `m` with `delta` added to the number in a field. -/
structure Raised (m n : Memory) (address length delta : Nat) : Prop where
  size : n.size = m.size
  sum : n.field address length = m.field address length + delta
  movable : n.movable address length = m.movable address length + delta
  limit : n.movable address length ≤ movableLimit length
  flag : length = 2 → n.field address length / 0x8000 = m.field address length / 0x8000
  kept : ∀ x, x < address ∨ address + length ≤ x → n.byte x = m.byte x

/-- A sum that a field can hold is not cut, and does not reach the index flag. -/
theorem sum_of_le_movableLimit {m : Memory} {address length delta : Nat}
    (h : m.movable address length + delta ≤ movableLimit length) :
    m.field address length + delta < 256 ^ length ∧
      (length = 2 → (m.field address length + delta) % 0x8000 = m.field address length % 0x8000 + delta) := by
  have hlt := m.field_lt address length
  unfold Memory.movable movableLimit at h
  split at h
  · subst length
    omega
  · exact ⟨by omega, fun hlength => absurd hlength ‹_›⟩

theorem raised_fill (m : Memory) {address length delta : Nat}
    (h : m.movable address length + delta ≤ movableLimit length) :
    Raised m (m.fill address (LittleEndian.encode length (m.field address length + delta))) address length delta := by
  obtain ⟨hlt, hlow⟩ := sum_of_le_movableLimit h
  have hsum := m.field_fill address length (m.field address length + delta)
  rw [Nat.mod_eq_of_lt hlt] at hsum
  have hmovable :
      (m.fill address (LittleEndian.encode length (m.field address length + delta))).movable address length =
        m.movable address length + delta := by
    rw [Memory.movable, Memory.movable, hsum]
    split
    · exact hlow ‹_›
    · rfl
  refine ⟨Memory.size_fill .., hsum, hmovable, hmovable.symm ▸ h, ?_, ?_⟩
  · intro hlength
    have := hlow hlength
    rw [hsum]
    omega
  · intro x hx
    apply m.byte_fill_of_outside
    rw [LittleEndian.length_encode]
    omega

/-- An instruction whose field is raised has its address raised. -/
theorem Raised.decode?_eq {m n : Memory} {here delta : Nat} (h : Raised m n (here + 1) 2 delta) {i : Instruction}
    (hi : Instruction.decode? (m.bytes here 3) = some i) :
    Instruction.decode? (n.bytes here 3) = some { i with address := i.address + delta } := by
  have hmovable : n.field (here + 1) 2 % 0x8000 = m.field (here + 1) 2 % 0x8000 + delta := h.movable
  have hflag : 0x8000 ≤ n.field (here + 1) 2 ↔ 0x8000 ≤ m.field (here + 1) 2 := by
    have := h.flag rfl
    omega
  rw [Memory.decode?_bytes] at hi ⊢
  rw [h.kept here (by omega), hmovable]
  simp only [hflag]
  obtain ⟨opcode, hopcode, rfl⟩ := Option.map_eq_some_iff.mp hi
  rw [hopcode]
  rfl

section
variable (m : Memory) {address length : Nat} (hlength : 1 ≤ length) (hwide : address + length ≤ 0x100000000)
  (delta : Nat)
include hlength hwide

theorem relocate_outcomes :
    ((∃ n, relocate m address length delta = (.ok (), n)) ↔
      address + length ≤ m.size ∧ m.movable address length + delta ≤ movableLimit length) ∧
    ((∃ value limit, relocate m address length delta = (.error (.relocationOverflow address value limit), m)) ↔
      address + length ≤ m.size ∧ movableLimit length < m.movable address length + delta) ∧
    ((∃ cause, relocate m address length delta = (.error (.outOfBounds address length cause), m)) ↔
      m.size < address + length) := by
  rw [relocate_eq_cases m hlength hwide]
  by_cases hinside : address + length ≤ m.size
  · rw [if_neg (Nat.not_lt.mpr hinside)]
    by_cases hfits : m.movable address length + delta ≤ movableLimit length
    · simp [hinside, hfits, Nat.not_lt.mpr hfits]
    · simp [hinside, hfits, Nat.lt_of_not_le hfits]
  · simp [hinside, Nat.lt_of_not_le hinside]

theorem raised_of_relocate {n : Memory} (h : relocate m address length delta = (.ok (), n)) :
    Raised m n address length delta := by
  obtain ⟨hinside, hfits⟩ := (relocate_outcomes m hlength hwide delta).1.mp ⟨n, h⟩
  rw [relocate_eq_cases m hlength hwide, if_neg (by omega), if_neg (by omega)] at h
  cases h
  exact raised_fill m hfits

end

/-- A record that cannot be relocated stops the loader, which leaves memory as it was. -/
theorem loadBody_of_relocate_error {m n : Memory} {program : Program} {start : Nat} {declared : UInt8} {e : LoadError}
    (hdeclared : declared.toNat ≤ fieldLimit)
    (h : relocate m (wrapAddress (program.base + start)) declared.toNat program.base = (.error e, n))
    (rest : List Record) : loadBody program m (.modification start declared :: rest) = (.error e, m) := by
  have hplace : place program.base m (.modification start declared) = (.error e, n) := by
    rw [place, Nat.min_eq_left hdeclared]
    exact h
  obtain ⟨-, rfl⟩ := place_eq_error hplace
  exact loadBody_of_error rfl hplace rest

/-- A field is relocated exactly if it lies in memory and can hold the sum, and then the sum is what it holds and
nothing else has changed. Otherwise the error says which of the two fails, and the loader leaves memory as it was. An
instruction keeps its opcode and its index flag. -/
theorem relocation_exact (m : Memory) (address length delta : Nat) (hlength : 1 ≤ length ∧ length ≤ 8)
    (hwide : address + length ≤ 0x100000000) :
    ((∃ n, relocate m address length delta = (.ok (), n)) ↔
      address + length ≤ m.size ∧ m.movable address length + delta ≤ movableLimit length) ∧
    (∀ n, relocate m address length delta = (.ok (), n) → Raised m n address length delta) ∧
    ((∃ value limit, relocate m address length delta = (.error (.relocationOverflow address value limit), m)) ↔
      address + length ≤ m.size ∧ movableLimit length < m.movable address length + delta) ∧
    ((∃ cause, relocate m address length delta = (.error (.outOfBounds address length cause), m)) ↔
      m.size < address + length) ∧
    (∀ e n, relocate m address length delta = (.error e, n) → n = m ∧ ∀ (program : Program) (start : Nat)
      (declared : UInt8) (rest : List Record), program.base = delta → wrapAddress (delta + start) = address →
      declared.toNat = length → loadBody program m (.modification start declared :: rest) = (.error e, m)) ∧
    ∀ here i n, address = here + 1 → length = 2 → Instruction.decode? (m.bytes here 3) = some i →
      relocate m address length delta = (.ok (), n) →
      Instruction.decode? (n.bytes here 3) = some { i with address := i.address + delta } := by
  obtain ⟨hok, hover, hout⟩ := relocate_outcomes m hlength.1 hwide delta
  refine ⟨hok, fun _ => raised_of_relocate m hlength.1 hwide delta, hover, hout, ?_, ?_⟩
  · intro e n he
    refine ⟨relocate_eq_error he, ?_⟩
    rintro program start declared rest rfl rfl rfl
    exact loadBody_of_relocate_error hlength.2 he rest
  · rintro here i n rfl rfl hi hok
    exact (raised_of_relocate m hlength.1 hwide delta hok).decode?_eq hi

/-- An indexed LDCH in the last three bytes of a memory. -/
def indexedLoad : Memory := (Memory.zeroed 16).fill 13 [0x01, 0x09, 0x90]

/-- Its address can be raised to the greatest that fits, and no further; three bytes from there on leave memory. -/
theorem indexed_load_relocated :
    (∃ n, relocate indexedLoad 14 2 0x6FF6 = (.ok (), n) ∧
      Instruction.decode? (n.bytes 13 3) = some ⟨.ldch, true, 0x7FFF⟩) ∧
    (∃ value limit, relocate indexedLoad 14 2 0x6FF7 = (.error (.relocationOverflow 14 value limit), indexedLoad)) ∧
    ∃ cause, relocate indexedLoad 14 3 0 = (.error (.outOfBounds 14 3 cause), indexedLoad) := by
  have hi : Instruction.decode? (indexedLoad.bytes 13 3) = some ⟨.ldch, true, 0x1009⟩ := by decide +kernel
  obtain ⟨hok, -, -, -, -, hdecode⟩ := relocation_exact indexedLoad 14 2 0x6FF6 (by decide) (by decide)
  obtain ⟨-, -, hover, -⟩ := relocation_exact indexedLoad 14 2 0x6FF7 (by decide) (by decide)
  obtain ⟨-, -, -, hout, -⟩ := relocation_exact indexedLoad 14 3 0 (by decide) (by decide)
  obtain ⟨n, hn⟩ := hok.mpr (by decide +kernel)
  exact ⟨⟨n, hn, hdecode 13 _ n rfl rfl hi hn⟩, hover.mpr (by decide +kernel), hout.mpr (by decide)⟩

end Tribyte
