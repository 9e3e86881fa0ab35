import Tribyte.Loading
import Tribyte.Machine.Run
import Tribyte.Proofs.Memory.Contents

/-! What a step of the machine can do.

Either it fetches no instruction and traps, or it executes the one that it fetches (`step_cases`). What effects keep
a step keeps, and what steps keep a run keeps (`step_keeps`, `runFor_keeps`): no run changes the size of memory
(`size_runFor`). -/
namespace Tribyte.Machine

/-- `i` is the instruction at the program counter. -/
structure Fetches (m : Machine) (i : Instruction) : Prop where
  inside : m.registers.pc + Instruction.size ≤ m.memory.size
  decoded : Instruction.decode? (m.memory.bytes m.registers.pc Instruction.size) = some i

/-! ### Fetching -/

theorem fetchByte_eq_ok {m : Machine} {address : Nat} (h : address < m.memory.size) :
    m.fetchByte address = .ok (m.memory.byte address) := by
  have hread : m.operand .byte address = .ok (m.memory.byte address).toNat := by
    rw [operand, Width.bytes, Memory.read_eq_ok h]
    simp [Memory.bytes, LittleEndian.decode]
  rw [fetchByte, hread]
  exact congrArg Except.ok UInt8.ofNat_toNat

theorem fetchByte_eq_error {m : Machine} {address : Nat} (h : ¬address < m.memory.size) :
    m.fetchByte address = .error (.bus address ⟨1, address, m.memory.size⟩) := by
  have hread : m.operand .byte address = .error (.bus address ⟨1, address, m.memory.size⟩) := by
    rw [operand, Width.bytes, Memory.read_eq_error h]
  rw [fetchByte, hread]
  rfl

theorem fetch_eq_ok {m : Machine} (h : m.registers.pc + Instruction.size ≤ m.memory.size) :
    m.fetch = .ok (m.memory.byte m.registers.pc, m.memory.byte (m.registers.pc + 1),
      m.memory.byte (m.registers.pc + 2)) := by
  unfold Instruction.size at h
  rw [fetch, fetchByte_eq_ok (by omega), fetchByte_eq_ok (by omega), fetchByte_eq_ok (by omega)]
  rfl

/-- A fetch that fails names the first byte that is outside memory. -/
theorem fetch_eq_error {m : Machine} (h : ¬m.registers.pc + Instruction.size ≤ m.memory.size) :
    ∃ address cause, m.fetch = .error (.bus address cause) := by
  unfold Instruction.size at h
  by_cases hfirst : m.registers.pc < m.memory.size
  · by_cases hsecond : m.registers.pc + 1 < m.memory.size
    · rw [fetch, fetchByte_eq_ok hfirst, fetchByte_eq_ok hsecond, fetchByte_eq_error (by omega)]
      exact ⟨_, _, rfl⟩
    · rw [fetch, fetchByte_eq_ok hfirst, fetchByte_eq_error hsecond]
      exact ⟨_, _, rfl⟩
  · rw [fetch, fetchByte_eq_error hfirst]
    exact ⟨_, _, rfl⟩

/-! ### Steps -/

/-- What a step does is to execute the instruction that it fetches. -/
theorem step_eq {m : Machine} {i : Instruction} (h : m.Fetches i) :
    m.step = match m.execute i.opcode.effect (m.effectiveAddress i) with
      | (.error t, m') => (.error t, m')
      | (.ok flow, m') => (.ok flow, m'.follow m.registers.pc flow) := by
  have hdecoded : Instruction.decode? [m.memory.byte m.registers.pc, m.memory.byte (m.registers.pc + 1),
      m.memory.byte (m.registers.pc + 2)] = some i := h.decoded
  rcases hexecute : m.execute i.opcode.effect (m.effectiveAddress i) with ⟨t | flow, m'⟩ <;>
    simp only [step, fetch_eq_ok h.inside, hdecoded, hexecute]

theorem step_fst {m : Machine} {i : Instruction} (h : m.Fetches i) :
    m.step.1 = (m.execute i.opcode.effect (m.effectiveAddress i)).1 := by
  rw [step_eq h]
  split <;> rename_i hexecute <;> rw [hexecute]

theorem step_snd {m : Machine} {i : Instruction} (h : m.Fetches i) :
    m.step.2 = match (m.execute i.opcode.effect (m.effectiveAddress i)).1 with
      | .error _ => (m.execute i.opcode.effect (m.effectiveAddress i)).2
      | .ok flow => (m.execute i.opcode.effect (m.effectiveAddress i)).2.follow m.registers.pc flow := by
  rw [step_eq h]
  split <;> rename_i hexecute <;> rw [hexecute]

theorem step_of_outside {m : Machine} (h : ¬m.registers.pc + Instruction.size ≤ m.memory.size) :
    ∃ address cause, m.step = (.error (.bus address cause), m) := by
  obtain ⟨address, cause, hfetch⟩ := fetch_eq_error h
  rw [step, hfetch]
  exact ⟨address, cause, rfl⟩

theorem step_of_unknown {m : Machine} (hinside : m.registers.pc + Instruction.size ≤ m.memory.size)
    (hnone : Instruction.decode? (m.memory.bytes m.registers.pc Instruction.size) = none) :
    m.step = (.error (.unknownOpcode m.registers.pc (m.memory.byte m.registers.pc)), m) := by
  have hbytes : Instruction.decode? [m.memory.byte m.registers.pc, m.memory.byte (m.registers.pc + 1),
      m.memory.byte (m.registers.pc + 2)] = none := hnone
  simp only [step, fetch_eq_ok hinside, hbytes]

theorem step_of_not_fetches {m : Machine} (h : ∀ i, ¬m.Fetches i) : ∃ t, m.step = (.error t, m) := by
  by_cases hinside : m.registers.pc + Instruction.size ≤ m.memory.size
  · have hnone : Instruction.decode? (m.memory.bytes m.registers.pc Instruction.size) = none := by
      rw [Option.eq_none_iff_forall_ne_some]
      intro i hi
      exact h i ⟨hinside, hi⟩
    exact ⟨_, step_of_unknown hinside hnone⟩
  · obtain ⟨address, cause, hstep⟩ := step_of_outside hinside
    exact ⟨_, hstep⟩

theorem step_cases (m : Machine) :
    (∃ t, (∀ i, ¬m.Fetches i) ∧ m.step = (.error t, m)) ∨
    ∃ i, m.Fetches i ∧
      ((∃ t m', m.execute i.opcode.effect (m.effectiveAddress i) = (.error t, m') ∧ m.step = (.error t, m')) ∨
      ∃ flow m', m.execute i.opcode.effect (m.effectiveAddress i) = (.ok flow, m') ∧
        m.step = (.ok flow, m'.follow m.registers.pc flow)) := by
  by_cases hfetches : ∃ i, m.Fetches i
  · obtain ⟨i, hi⟩ := hfetches
    refine .inr ⟨i, hi, ?_⟩
    rw [step_eq hi]
    rcases m.execute i.opcode.effect (m.effectiveAddress i) with ⟨t | flow, m'⟩
    · exact .inl ⟨t, m', rfl, rfl⟩
    · exact .inr ⟨flow, m', rfl, rfl⟩
  · have hnone : ∀ i, ¬m.Fetches i := fun i hi => hfetches ⟨i, hi⟩
    obtain ⟨t, ht⟩ := step_of_not_fetches hnone
    exact .inl ⟨t, hnone, ht⟩

/-- A step that does not trap has executed an instruction and followed where it leads. -/
theorem step_eq_ok {m n : Machine} {flow : Flow} (h : m.step = (.ok flow, n)) :
    ∃ i m', m.Fetches i ∧ m.execute i.opcode.effect (m.effectiveAddress i) = (.ok flow, m') ∧
      n = m'.follow m.registers.pc flow := by
  rcases m.step_cases with ⟨t, -, hstep⟩ | ⟨i, hi, ⟨t, m', -, hstep⟩ | ⟨flow, m', hexecute, hstep⟩⟩
  · cases h.symm.trans hstep
  · cases h.symm.trans hstep
  · cases h.symm.trans hstep
    exact ⟨i, m', hi, hexecute, rfl⟩

/-- Sequential execution moves the counter past the instruction it has fetched. -/
theorem step_next {m n : Machine} (h : m.step = (.ok .next, n)) :
    m.registers.pc + Instruction.size ≤ m.memory.size ∧
      n.registers.pc = Word.wrap (m.registers.pc + Instruction.size) := by
  obtain ⟨i, m', hi, -, rfl⟩ := step_eq_ok h
  exact ⟨hi.inside, rfl⟩

theorem turn_of_next {terminal : Nat} {m m' : Machine} (h : m.step = (.ok .next, m')) :
    m.turn terminal = (if terminal ≤ m'.registers.pc then some (.ok .terminal) else none, m') := by
  rw [turn, h]

/-- An instruction that halts leaves the machine as it is. -/
theorem execute_halt {m m' : Machine} {e : Effect} {address : Nat} {reason : Halt}
    (h : m.execute e address = (.ok (.halt reason), m')) : m' = m := by
  cases e with
  | load | store | compare | countIndex | add | subtract | receive | send =>
    simp only [execute] at h
    split at h <;> cases h
  | jump | leave | halt => exact (congrArg Prod.snd h).symm
  | call | idle => cases h

/-! ### What is kept -/

/-- A step keeps what every effect keeps and what does not depend on the program counter. -/
theorem step_keeps {P : Machine → Prop} {m : Machine} (hm : P m)
    (hexecute : ∀ i : Instruction, P (m.execute i.opcode.effect (m.effectiveAddress i)).2)
    (hfollow : ∀ {n : Machine} (pc : Nat) (flow : Flow), P n → P (n.follow pc flow)) : P m.step.2 := by
  by_cases hfetches : ∃ i, m.Fetches i
  · obtain ⟨i, hi⟩ := hfetches
    rw [step_snd hi]
    split
    · exact hexecute i
    · exact hfollow _ _ (hexecute i)
  · obtain ⟨t, hstep⟩ := step_of_not_fetches fun i hi => hfetches ⟨i, hi⟩
    rw [hstep]
    exact hm

theorem turn_snd (terminal : Nat) (m : Machine) : (m.turn terminal).2 = m.step.2 := by
  rw [turn]
  split <;> simp_all

theorem runFor_succ (terminal k : Nat) (m : Machine) :
    m.runFor terminal (k + 1) = match (m.turn terminal).1 with
      | some result => (some result, m.step.2)
      | none => m.step.2.runFor terminal k := by
  rw [← m.turn_snd terminal, runFor]
  rcases m.turn terminal with ⟨_ | result, m'⟩ <;> rfl

/-- A run keeps what every step keeps. -/
theorem runFor_keeps {P : Machine → Prop} (hstep : ∀ {n : Machine}, P n → P n.step.2) {m : Machine} (hm : P m)
    (terminal k : Nat) : P (m.runFor terminal k).2 := by
  induction k generalizing m with
  | zero => exact hm
  | succ k ih =>
    rw [runFor_succ]
    split
    · exact hstep hm
    · exact ih (hstep hm)

/-! ### The size of memory -/

theorem memory_withRegisters (m : Machine) (r : Registers) : ({ m with registers := r } : Machine).memory = m.memory :=
  rfl

@[simp] theorem memory_setRegister (m : Machine) (register : Register) (value : Nat) :
    (m.setRegister register value).memory = m.memory := m.memory_withRegisters _

@[simp] theorem memory_withAccumulator (m : Machine) (value : Nat) : (m.withAccumulator value).memory = m.memory :=
  m.memory_withRegisters _

-- Not by `rfl`, which would evaluate the comparison.
@[simp] theorem memory_compareWords (m : Machine) (lhs rhs : Nat) :
    (m.compareWords lhs rhs).memory = m.memory := m.memory_withRegisters _

theorem size_execute (m : Machine) (e : Effect) (address : Nat) :
    (m.execute e address).2.memory.size = m.memory.size := by
  cases e with
  | store register width =>
    have hsize := m.memory.size_write width.bytes address (m.registers.get register)
    simp only [execute]
    split <;> rename_i hwrite <;> rwa [hwrite] at hsize
  | load | compare | countIndex | add | subtract | receive | send =>
    simp only [execute]
    split <;> simp only [memory_setRegister, memory_withAccumulator, memory_compareWords]
  | jump | call | leave | halt | idle => rfl

theorem size_follow (m : Machine) (pc : Nat) (flow : Flow) : (m.follow pc flow).memory.size = m.memory.size := by
  cases flow <;> rfl

theorem size_step (m : Machine) : m.step.2.memory.size = m.memory.size :=
  step_keeps (P := fun n => n.memory.size = m.memory.size) rfl (fun _ => m.size_execute _ _)
    fun pc flow hn => (size_follow _ pc flow).trans hn

theorem size_runFor (terminal k : Nat) (m : Machine) : (m.runFor terminal k).2.memory.size = m.memory.size :=
  runFor_keeps (P := fun n => n.memory.size = m.memory.size) (fun hn => (size_step _).trans hn) rfl terminal k

/-! ### Runs -/

theorem runFor_add (terminal k n : Nat) (m : Machine) :
    m.runFor terminal (k + n) = match m.runFor terminal k with
      | (some result, m') => (some result, m')
      | (none, m') => m'.runFor terminal n := by
  induction k generalizing m with
  | zero => rw [Nat.zero_add, runFor]
  | succ k ih =>
    rw [Nat.succ_add, runFor, runFor]
    rcases m.turn terminal with ⟨_ | result, m'⟩
    · exact ih m'
    · rfl

theorem runFor_one (terminal : Nat) (m : Machine) : m.runFor terminal 1 = m.turn terminal := by
  rw [runFor]
  rcases m.turn terminal with ⟨_ | result, m'⟩ <;> rfl

/-- After a run that is still going, one more step is one more turn. -/
theorem runFor_succ_of_running {terminal k : Nat} {m m' : Machine} (h : m.runFor terminal k = (none, m')) :
    m.runFor terminal (k + 1) = m'.turn terminal := by
  rw [runFor_add, h]
  exact runFor_one terminal m'

theorem runFor_succ_of_ended {terminal k : Nat} {m m' : Machine} {result : Except Trap Halt}
    (h : m.runFor terminal k = (some result, m')) : m.runFor terminal (k + 1) = (some result, m') := by
  rw [runFor_add, h]

/-- A run that stops within its limit stops the same way under that limit. -/
theorem run_of_runFor {terminal k : Nat} {limit : Option Nat} {m m' : Machine} {result : Except Trap Halt}
    (h : m.runFor terminal k = (some result, m')) (hlimit : ∀ n, limit = some n → k ≤ n) :
    m.run terminal limit = (result, m') := by
  cases limit with
  | none => exact runOn_of_runFor h
  | some n =>
    obtain ⟨rest, rfl⟩ := Nat.exists_eq_add_of_le (hlimit n rfl)
    rw [run, runWithin, runFor_add, h]

/-- Runs that agree step by step end alike, be it by a limit. -/
theorem run_agree {terminal terminal' : Nat} {m m' : Machine} {limit : Option Nat}
    {f : Except Trap Halt → Except Trap Halt} {R : Machine → Machine → Prop}
    (hlimit : ∀ n, f (.error (.stepLimit n)) = .error (.stepLimit n))
    (h : ∀ k, (∀ n, limit = some n → k ≤ n) → (m'.runFor terminal' k).1 = (m.runFor terminal k).1.map f ∧
      R (m.runFor terminal k).2 (m'.runFor terminal' k).2)
    (hends : limit ≠ none ∨ ∃ k, (m.runFor terminal k).1 ≠ none) :
    (m'.run terminal' limit).1 = f (m.run terminal limit).1 ∧
      R (m.run terminal limit).2 (m'.run terminal' limit).2 := by
  cases limit with
  | none =>
    obtain ⟨k, hended⟩ := hends.resolve_left fun hne => hne rfl
    obtain ⟨hresult, hrel⟩ := h k (by simp)
    rcases hrun : m.runFor terminal k with ⟨_ | result, n⟩
    · rw [hrun] at hended
      exact absurd rfl hended
    · rcases hrun' : m'.runFor terminal' k with ⟨result', n'⟩
      rw [hrun, hrun'] at hresult hrel
      cases hresult
      rw [run_of_runFor hrun (by simp), run_of_runFor hrun' (by simp)]
      exact ⟨rfl, hrel⟩
  | some n =>
    obtain ⟨hresult, hrel⟩ := h n (fun n hn => Nat.le_of_eq (Option.some.inj hn))
    rw [run, run, runWithin, runWithin]
    rcases hrun : m.runFor terminal n with ⟨_ | result, m₁⟩ <;>
      rcases hrun' : m'.runFor terminal' n with ⟨result', m₁'⟩ <;>
      rw [hrun, hrun'] at hresult hrel <;>
      cases hresult
    · exact ⟨(hlimit n).symm, hrel⟩
    · exact ⟨rfl, hrel⟩

end Tribyte.Machine

namespace Tribyte

/-- A machine about to execute a loaded program. -/
def Program.start (program : Program) (memory : Memory) (console : Console) : Machine :=
  { registers := .reset program.entry, memory, console }

/-- The first `k` steps of a loaded program. -/
def Program.runFor (program : Program) (memory : Memory) (console : Console) (k : Nat) :
    Option (Except Trap Halt) × Machine :=
  (program.start memory console).runFor program.terminal k

def Program.run (program : Program) (memory : Memory) (console : Console) (limit : Option Nat) :
    Except Trap Halt × Machine :=
  (program.start memory console).run program.terminal limit

end Tribyte
