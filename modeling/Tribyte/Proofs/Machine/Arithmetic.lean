import Tribyte.Proofs.Machine.Effects

/-! Arithmetic on words.

A word and its signed reading give each other back (`Word.ofSigned_signed`, `Word.signed_ofSigned`), and in 32 bits the
reading is a shift up and one down that keeps the sign (`Word.signed_eq_extend`). So ADD and SUB are exact modulo
`2 ^ 24` and COMP finds the signed order. TIX, executed again and again, counts up to its operand: one execution counts
one (`execute_tix`), and `execute_repeated_tix` follows the count to its end. `word_arithmetic_exact` puts all of this
together. -/
namespace Tribyte

/-! ### Signed readings -/

namespace Word

theorem ofSigned_add (a w : Nat) : ofSigned (signed a + signed w) = (a + w) % modulus := by
  simp only [ofSigned, signed, Int.bmod, modulus]
  omega

theorem ofSigned_sub (a w : Nat) : ofSigned (signed a - signed w) = (((a : Int) - w) % modulus).toNat := by
  simp only [ofSigned, signed, Int.bmod, modulus]
  omega

/-- A word in 32 bits, with its sign bit in the bits above it: shifted up, and down again with the sign. -/
def extend (v : BitVec 32) : BitVec 32 := (v <<< 8).sshiftRight 8

theorem signed_eq_extend (v : BitVec 32) : signed v.toNat = (extend v).toInt := by
  have hv := v.isLt
  rw [extend, BitVec.toInt_sshiftRight, BitVec.toInt_shiftLeft, Int.shiftRight_eq_div_pow, Nat.shiftLeft_eq]
  simp only [signed, Int.bmod, modulus]
  omega

/-- The way back masks the bits above the word. -/
theorem ofSigned_eq_mask (v : BitVec 32) : ofSigned v.toInt = (v &&& 0xFFFFFF#32).toNat := by
  have hmask : (0xFFFFFF#32).toNat = 2 ^ 24 - 1 := rfl
  rw [BitVec.toNat_and, hmask, Nat.and_two_pow_sub_one_eq_mod, BitVec.toInt_eq_toNat_bmod]
  simp only [ofSigned, Int.bmod, modulus]
  omega

/-- Two signed readings do not leave 32 bits by one addition or subtraction. -/
theorem toInt_extend_add (a w : BitVec 32) : (extend a + extend w).toInt = signed a.toNat + signed w.toNat := by
  rw [BitVec.toInt_add, ← signed_eq_extend, ← signed_eq_extend]
  simp only [signed, Int.bmod, modulus]
  omega

theorem toInt_extend_sub (a w : BitVec 32) : (extend a - extend w).toInt = signed a.toNat - signed w.toNat := by
  rw [BitVec.toInt_sub, ← signed_eq_extend, ← signed_eq_extend]
  simp only [signed, Int.bmod, modulus]
  omega

end Word

theorem Registers.statusCode_compare (y z : Int) :
    (statusCode (compare y z) = 0 ↔ y = z) ∧ (statusCode (compare y z) = 1 ↔ y < z) ∧
      (statusCode (compare y z) = 2 ↔ z < y) := by
  rw [← Int.compare_eq_eq, ← Int.compare_eq_lt, ← Int.compare_eq_gt]
  cases compare y z <;> decide

namespace Machine

variable {m : Machine} {address w : Nat}

theorem wordAt_of_read (h : m.memory.read 3 address = .ok w) :
    address + Width.word.bytes ≤ m.memory.size ∧ m.wordAt address = w := by
  unfold Memory.read at h
  split at h
  · rename_i hinside
    exact ⟨hinside, Except.ok.inj h⟩
  · cases h

/-! ### The accumulator -/

theorem execute_add (hread : m.memory.read 3 address = .ok w) :
    m.execute Opcode.add.effect address = (.ok .next, m.withAccumulator ((m.registers.a + w) % Word.modulus)) := by
  obtain ⟨hinside, rfl⟩ := wordAt_of_read hread
  rw [← Word.ofSigned_add]
  exact (Performs.add hinside).execute_eq (by simp) (by simp)

theorem execute_sub (hread : m.memory.read 3 address = .ok w) :
    m.execute Opcode.sub.effect address =
      (.ok .next, m.withAccumulator (((m.registers.a : Int) - w) % Word.modulus).toNat) := by
  obtain ⟨hinside, rfl⟩ := wordAt_of_read hread
  rw [← Word.ofSigned_sub]
  exact (Performs.subtract hinside).execute_eq (by simp) (by simp)

/-- Subtracting what has been added leaves the word that was there. -/
theorem execute_add_sub {other : Nat} (hread : m.memory.read 3 address = .ok w)
    (hother : m.memory.read 3 other = .ok w) :
    (m.execute Opcode.add.effect address).2.execute Opcode.sub.effect other =
      (.ok .next, m.withAccumulator (m.registers.a % Word.modulus)) := by
  have hback : ((((m.registers.a + w) % Word.modulus : Nat) : Int) - w) % Word.modulus =
      (m.registers.a % Word.modulus : Nat) := by
    simp only [Word.modulus]
    omega
  have hsub := execute_sub (m := m.withAccumulator ((m.registers.a + w) % Word.modulus)) hother
  rw [execute_add hread, hsub]
  show (Except.ok Flow.next, m.withAccumulator
    (((((m.registers.a + w) % Word.modulus : Nat) : Int) - w) % Word.modulus).toNat) = _
  rw [hback, Int.toNat_natCast]

/-! ### The status word -/

theorem execute_comp (hread : m.memory.read 3 address = .ok w) :
    m.execute Opcode.comp.effect address = (.ok .next, m.compareWords m.registers.a w) := by
  obtain ⟨hinside, rfl⟩ := wordAt_of_read hread
  exact (Performs.compare hinside).execute_eq (by simp) (by simp)

/-! ### Counting -/

/-- The machine after an opcode has been executed `count` times, with its operand at one address. -/
def repeated (m : Machine) (op : Opcode) (address : Nat) : (count : Nat) → Machine
  | 0 => m
  | count + 1 => ((m.repeated op address count).execute op.effect address).2

/-- The machine with a count in the index register, and how the count compares. -/
def withCount (m : Machine) (count status : Nat) : Machine :=
  { m with registers := { m.registers with x := count, sw := status } }

/-- One count, up to the greatest word without a sign. -/
theorem execute_tix (hread : m.memory.read 3 address = .ok w) (hx : m.registers.x < w) (hw : w ≤ 0x7FFFFF) :
    m.execute Opcode.tix.effect address =
      (.ok .next, m.withCount (m.registers.x + 1) (if m.registers.x + 1 < w then 1 else 0)) := by
  obtain ⟨hinside, hword⟩ := wordAt_of_read hread
  have hwrap : Word.wrap (m.registers.x + 1) = m.registers.x + 1 := Word.wrap_of_lt (by unfold Word.modulus; omega)
  have hstatus : Registers.statusCode (compare (Word.signed (m.registers.x + 1)) (Word.signed w)) =
      if m.registers.x + 1 < w then 1 else 0 := by
    obtain ⟨hequal, hless, -⟩ := Registers.statusCode_compare (Word.signed (m.registers.x + 1)) (Word.signed w)
    rw [Word.signed_of_le (by omega), Word.signed_of_le hw] at *
    split
    · exact hless.mpr (by omega)
    · exact hequal.mpr (by omega)
  refine ((Performs.countIndex hinside).execute_eq (by simp) (by simp)).trans ?_
  rw [hwrap, hword, ← hstatus, compareWords, Registers.compareWords, setRegister, Registers.set, hwrap]
  rfl

/-- The count goes on one by one, and the status word says when it is at its end. -/
theorem execute_repeated_tix (hread : m.memory.read 3 address = .ok w) (hw : w ≤ 0x7FFFFF) {done : Nat}
    (hdone : m.registers.x + done < w) :
    (m.repeated .tix address done).execute Opcode.tix.effect address =
      (.ok .next, m.withCount (m.registers.x + done + 1) (if m.registers.x + done + 1 < w then 1 else 0)) := by
  induction done with
  | zero => exact execute_tix hread hdone hw
  | succ done ih =>
    have hbefore := congrArg Prod.snd (ih (by omega))
    rw [repeated, hbefore]
    exact execute_tix (m := m.withCount (m.registers.x + done + 1) _) hread hdone hw

/-! ### Together -/

/-- What the opcodes for words do with the word `w` at `address`. -/
structure Computes (m : Machine) (address w : Nat) : Prop where
  add : m.execute Opcode.add.effect address = (.ok .next, m.withAccumulator ((m.registers.a + w) % Word.modulus))
  sub : m.execute Opcode.sub.effect address =
    (.ok .next, m.withAccumulator (((m.registers.a : Int) - w) % Word.modulus).toNat)
  add_sub : ∀ other, m.memory.read 3 other = .ok w →
    (m.execute Opcode.add.effect address).2.execute Opcode.sub.effect other =
      (.ok .next, m.withAccumulator (m.registers.a % Word.modulus))
  comp : ∃ status,
    m.execute Opcode.comp.effect address = (.ok .next, { m with registers := { m.registers with sw := status } }) ∧
    (status = 0 ↔ Word.signed m.registers.a = Word.signed w) ∧
    (status = 1 ↔ Word.signed m.registers.a < Word.signed w) ∧
    (status = 2 ↔ Word.signed w < Word.signed m.registers.a)
  tix : m.registers.x < w → w ≤ 0x7FFFFF →
    (∀ done, m.registers.x + done < w →
      (m.repeated .tix address done).execute Opcode.tix.effect address =
        (.ok .next, m.withCount (m.registers.x + done + 1) (if m.registers.x + done + 1 < w then 1 else 0))) ∧
    m.repeated .tix address (w - m.registers.x) = m.withCount w 0

theorem computes (hread : m.memory.read 3 address = .ok w) : m.Computes address w where
  add := execute_add hread
  sub := execute_sub hread
  add_sub := fun _ => execute_add_sub hread
  comp := ⟨_, execute_comp hread, Registers.statusCode_compare _ _⟩
  tix := by
    intro hx hw
    refine ⟨fun done hdone => execute_repeated_tix hread hw hdone, ?_⟩
    obtain ⟨done, rfl⟩ := Nat.exists_eq_add_of_lt hx
    have hlast := congrArg Prod.snd (execute_repeated_tix hread hw (Nat.lt_succ_self (m.registers.x + done)))
    rw [if_neg (Nat.lt_irrefl _)] at hlast
    rw [Nat.add_assoc, Nat.add_sub_cancel_left]
    exact hlast

end Machine

/-- Words are added and subtracted modulo `2 ^ 24` and compared in their signed order, whatever number the accumulator
holds, and counting ends exactly at the operand. Signed readings and words determine each other, and what they amount
to is sign extension, addition and masking in 32 bits. -/
theorem word_arithmetic_exact :
    (∀ (m : Machine) (address w : Nat), m.memory.read 3 address = .ok w → m.Computes address w) ∧
    (∀ v : Nat, Word.ofSigned (Word.signed v) = v % Word.modulus) ∧
    (∀ z : Int, -0x800000 ≤ z → z < 0x800000 → Word.signed (Word.ofSigned z) = z) ∧
    (∀ (v : Nat) (z : Int), Word.signed v = z ↔ -0x800000 ≤ z ∧ z < 0x800000 ∧ z % Word.modulus = v % Word.modulus) ∧
    ∀ a w : BitVec 32,
      Word.signed a.toNat = (Word.extend a).toInt ∧ Word.ofSigned a.toInt = (a &&& 0xFFFFFF#32).toNat ∧
      (a.toNat + w.toNat) % Word.modulus = ((Word.extend a + Word.extend w) &&& 0xFFFFFF#32).toNat ∧
      (((a.toNat : Int) - w.toNat) % Word.modulus).toNat = ((Word.extend a - Word.extend w) &&& 0xFFFFFF#32).toNat := by
  refine ⟨fun m address w => Machine.computes, Word.ofSigned_signed, ?_, ?_, ?_⟩
  · intro z hleast hgreatest
    exact Word.signed_ofSigned hleast (Int.le_of_lt_add_one hgreatest)
  · intro v z
    rw [Word.signed_eq_iff, Word.leastSigned, Word.greatestSigned]
    omega
  · intro a w
    refine ⟨Word.signed_eq_extend a, Word.ofSigned_eq_mask a, ?_, ?_⟩
    · rw [← Word.ofSigned_eq_mask, Word.toInt_extend_add, Word.ofSigned_add]
    · rw [← Word.ofSigned_eq_mask, Word.toInt_extend_sub, Word.ofSigned_sub]

/-- The word 5, before an accumulator that holds more than a word and an index register that is two short of it. -/
def countingMachine : Machine :=
  { registers := { a := 0x17FFFFF, x := 3 }, memory := (Memory.zeroed 8).fill 2 [5, 0, 0] }

/-- The sum passes the greatest signed word, the accumulator compares as the word that it ends in, and the second count
is the last. -/
theorem counting_machine_computes :
    countingMachine.memory.read 3 2 = .ok 5 ∧
    (countingMachine.execute Opcode.add.effect 2).2.registers.a = 0x800004 ∧
    ((countingMachine.execute Opcode.add.effect 2).2.execute Opcode.sub.effect 2).2.registers.a = 0x7FFFFF ∧
    (countingMachine.execute Opcode.comp.effect 2).2.registers.sw = 2 ∧
    (countingMachine.repeated .tix 2 1).registers = { a := 0x17FFFFF, x := 4, sw := 1 } ∧
    (countingMachine.repeated .tix 2 2).registers = { a := 0x17FFFFF, x := 5, sw := 0 } := by
  have hread : countingMachine.memory.read 3 2 = .ok 5 := by decide +kernel
  have h := word_arithmetic_exact.1 countingMachine 2 5 hread
  obtain ⟨status, hcomp, -, -, hgreater⟩ := h.comp
  obtain ⟨hcount, hend⟩ := h.tix (by decide) (by decide)
  have hfirst := congrArg Prod.snd (hcount 0 (by decide))
  refine ⟨hread, ?_, ?_, ?_, congrArg Machine.registers hfirst, congrArg Machine.registers hend⟩
  · rw [h.add]
    rfl
  · rw [h.add_sub 2 hread]
    rfl
  · rw [hcomp]
    exact hgreater.mpr (by decide)

end Tribyte
