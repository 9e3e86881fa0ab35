import Tribyte.Proofs.Machine.Steps

/-! What a trap leaves behind.

A step that traps leaves memory and the console alone, and the registers too, but for one instruction: the
count of TIX has already been made when its operand turns out to be outside memory (`trap_precise_iff`). A trap
says what went wrong: where a step asks for input there is none, and no step speaks of a limit (`step_trap_cases`). -/
namespace Tribyte.Machine

/-! ### The kinds of traps -/

theorem operand_eq_error {m : Machine} {width : Width} {address : Nat} {t : Trap}
    (h : m.operand width address = .error t) : ∃ cause, t = .bus address cause := by
  unfold operand at h
  split at h
  · cases h
  · cases h
    exact ⟨_, rfl⟩

theorem exists_operand (m : Machine) (width : Width) (address : Nat)
    (h : ∀ cause, m.operand width address ≠ .error (.bus address cause)) :
    ∃ value, m.operand width address = .ok value := by
  cases hoperand : m.operand width address with
  | error t =>
    obtain ⟨cause, rfl⟩ := operand_eq_error hoperand
    exact absurd hoperand (h cause)
  | ok value => exact ⟨value, rfl⟩

theorem execute_trap_cases {m m' : Machine} {e : Effect} {address : Nat} {t : Trap}
    (h : m.execute e address = (.error t, m')) :
    (∃ cause, t = .bus address cause) ∨ (∃ message, t = .device m.registers.pc message) ∨
      t = .noInput m.registers.pc ∧ m' = m ∧ m.console.input = [] := by
  cases e with
  | load | compare | countIndex | add | subtract =>
    simp only [execute] at h
    split at h
    · rename_i hoperand
      cases h
      exact .inl (operand_eq_error hoperand)
    · cases h
  | store =>
    simp only [execute] at h
    split at h
    · cases h
      exact .inl ⟨_, rfl⟩
    · cases h
  | receive =>
    simp only [execute] at h
    split at h
    · cases h
      exact .inr (.inl ⟨_, rfl⟩)
    · rename_i hinput
      cases h
      exact .inr (.inr ⟨rfl, rfl, hinput⟩)
    · cases h
  | send =>
    simp only [execute] at h
    split at h
    · cases h
      exact .inr (.inl ⟨_, rfl⟩)
    · cases h
  | jump | call | leave | halt | idle => cases h

/-- The traps that a step can give. -/
theorem step_trap_cases {m m' : Machine} {t : Trap} (h : m.step = (.error t, m')) :
    (∃ address cause, t = .bus address cause) ∨ (∃ code, t = .unknownOpcode m.registers.pc code) ∨
      (∃ message, t = .device m.registers.pc message) ∨
      t = .noInput m.registers.pc ∧ m' = m ∧ m.console.input = [] := by
  by_cases hinside : m.registers.pc + Instruction.size ≤ m.memory.size
  · cases hdecode : Instruction.decode? (m.memory.bytes m.registers.pc Instruction.size) with
    | none =>
      rw [step_of_unknown hinside hdecode] at h
      cases h
      exact .inr (.inl ⟨_, rfl⟩)
    | some i =>
      rw [step_eq ⟨hinside, hdecode⟩] at h
      split at h
      · rename_i hexecute
        cases h
        rcases execute_trap_cases hexecute with ⟨cause, ht⟩ | hdevice | hnoInput
        · exact .inl ⟨_, cause, ht⟩
        · exact .inr (.inr (.inl hdevice))
        · exact .inr (.inr (.inr hnoInput))
      · cases h
  · obtain ⟨address, cause, hstep⟩ := step_of_outside hinside
    rw [hstep] at h
    cases h
    exact .inl ⟨address, cause, rfl⟩

/-! ### The machine that is left -/

/-- The machine that an effect leaves where it traps. -/
def trapped (m : Machine) : Effect → Machine
  | .countIndex => m.setRegister .x (m.registers.x + 1)
  | _ => m

theorem execute_eq_error {m m' : Machine} {e : Effect} {address : Nat} {t : Trap}
    (h : m.execute e address = (.error t, m')) : m' = m.trapped e := by
  cases e with
  | load | compare | countIndex | add | subtract =>
    simp only [execute] at h
    split at h
    · cases h
      rfl
    · cases h
  | store register width =>
    by_cases hinside : address + width.bytes ≤ m.memory.size
    · simp only [execute, Memory.write_eq_ok hinside] at h
      cases h
    · simp only [execute, Memory.write_eq_error hinside] at h
      cases h
      rfl
  | receive | send =>
    simp only [execute] at h
    split at h <;> cases h <;> rfl
  | jump | call | leave | halt | idle => cases h

theorem opcode_effect_eq_countIndex {op : Opcode} : op.effect = .countIndex ↔ op = .tix := by
  cases op <;> decide

/-- The count always shows. -/
theorem wrap_succ_ne (n : Nat) : Word.wrap (n + 1) ≠ n := by
  unfold Word.wrap Word.modulus
  omega

theorem execute_countIndex_eq_error {m : Machine} {address : Nat} (h : m.memory.size < address + Width.word.bytes) :
    m.execute .countIndex address =
      (.error (.bus address ⟨Width.word.bytes, address, m.memory.size⟩), m.trapped .countIndex) := by
  have hread := Memory.read_eq_error (Nat.not_le.mpr h)
  simp only [execute, operand, memory_setRegister, hread]
  rfl

theorem execute_countIndex_eq_ok {m : Machine} {address : Nat} (h : address + Width.word.bytes ≤ m.memory.size) :
    (m.execute .countIndex address).1 = .ok .next := by
  have hread := Memory.read_eq_ok h
  simp only [execute, operand, memory_setRegister, hread]

theorem step_eq_error {m m' : Machine} {t : Trap} (h : m.step = (.error t, m')) :
    m' = m ∨ (∃ i, m.Fetches i ∧ i.opcode = .tix ∧ m.memory.size < m.effectiveAddress i + Width.word.bytes) ∧
      m' = m.trapped .countIndex := by
  rcases m.step_cases with ⟨t, -, hstep⟩ | ⟨i, hi, ⟨t, m', hexecute, hstep⟩ | ⟨flow, m', -, hstep⟩⟩
  · rw [hstep] at h
    cases h
    exact .inl rfl
  · rw [hstep] at h
    cases h
    by_cases htix : i.opcode = .tix
    · have heffect := opcode_effect_eq_countIndex.mpr htix
      refine .inr ⟨⟨i, hi, htix, ?_⟩, heffect ▸ execute_eq_error hexecute⟩
      -- With its operand in memory the instruction would not have trapped.
      apply Nat.lt_of_not_le
      intro hroom
      have hok := execute_countIndex_eq_ok hroom
      rw [← heffect, hexecute] at hok
      cases hok
    · refine .inl ((execute_eq_error hexecute).trans ?_)
      unfold trapped
      split
      · exact absurd (opcode_effect_eq_countIndex.mp ‹_›) htix
      · rfl
  · rw [hstep] at h
    cases h

/-- Every trap leaves memory, console and registers alone, but for the count of a TIX whose operand is outside
memory: that one is left behind. -/
theorem trap_precise_iff (m : Machine) :
    (∀ t m', m.step = (.error t, m') → m'.memory = m.memory ∧ m'.console = m.console ∧
      (m'.registers = m.registers ∨ m'.registers = { m.registers with x := Word.wrap (m.registers.x + 1) })) ∧
    ((∀ t m', m.step = (.error t, m') → m' = m) ↔
      ¬∃ i, m.Fetches i ∧ i.opcode = .tix ∧ m.memory.size < m.effectiveAddress i + Width.word.bytes) := by
  refine ⟨?_, ?_, ?_⟩
  · intro t m' h
    rcases step_eq_error h with rfl | ⟨-, rfl⟩
    · exact ⟨rfl, rfl, .inl rfl⟩
    · exact ⟨rfl, rfl, .inr rfl⟩
  · intro hprecise himprecise
    obtain ⟨i, hi, htix, houtside⟩ := himprecise
    have hstep := step_eq hi
    rw [opcode_effect_eq_countIndex.mpr htix, execute_countIndex_eq_error houtside] at hstep
    have hx : (m.trapped .countIndex).registers.x = m.registers.x := by rw [hprecise _ _ hstep]
    exact wrap_succ_ne m.registers.x hx
  · intro hinside t m' h
    rcases step_eq_error h with rfl | ⟨himprecise, -⟩
    · rfl
    · exact absurd himprecise hinside

/-- TIX of an address beyond a memory of 16 bytes. -/
theorem tix_trap_leaves_count :
    ¬∀ t m', (boot ((Memory.zeroed 16).fill 0 [0x0B, 0xFF, 0x7F]) 0 []).step = (.error t, m') →
      m' = boot ((Memory.zeroed 16).fill 0 [0x0B, 0xFF, 0x7F]) 0 [] := by
  intro hprecise
  refine (trap_precise_iff _).2.mp hprecise ⟨⟨.tix, false, 0x7FFF⟩, ⟨?_, ?_⟩, rfl, ?_⟩
  · decide
  · decide +kernel
  · decide

end Tribyte.Machine
