import Tribyte.Proofs.Machine.Steps

/-! What registers hold.

After a reset every register holds a word and the status word the outcome of a comparison (`Sound`), and no step
changes that, whether it traps or not (`sound_step`). So a conditional jump always has an outcome to go by, and of
the three exactly one is taken (`registers_hold_words`). -/
namespace Tribyte.Registers

/-- Every register holds a word, and the status word an outcome. -/
structure Sound (r : Registers) : Prop where
  word : ∀ register, r.get register < Word.modulus
  status : r.sw = 0 ∨ r.sw = 1 ∨ r.sw = 2

theorem get_poke (r : Registers) (register other : Register) (value : Nat) :
    (r.poke register value).get other = if other = register then value else r.get other := by
  cases register <;> cases other <;> rfl

theorem get_set (r : Registers) (register other : Register) (value : Nat) :
    (r.set register value).get other = if other = register then Word.wrap value else r.get other :=
  r.get_poke register other _

theorem sound_reset (pc : Nat) : (reset pc).Sound where
  word := by
    intro register
    cases register with
    | pc => exact Word.wrap_lt pc
    | a | x | l | sw | s => exact Nat.zero_lt_succ _
  status := .inl rfl

/-- A number that is put into a register as it is has to be a word already. -/
theorem Sound.poke {r : Registers} (h : r.Sound) {register : Register} (hne : register ≠ .sw) {value : Nat}
    (hword : value < Word.modulus) : (r.poke register value).Sound where
  word := by
    intro other
    rw [get_poke]
    split
    · exact hword
    · exact h.word other
  status := by
    show (r.poke register value).get .sw = 0 ∨ (r.poke register value).get .sw = 1 ∨
      (r.poke register value).get .sw = 2
    rw [get_poke, if_neg hne.symm]
    exact h.status

theorem Sound.set {r : Registers} (h : r.Sound) {register : Register} (hne : register ≠ .sw) (value : Nat) :
    (r.set register value).Sound := h.poke hne (Word.wrap_lt value)

theorem statusCode_cases (outcome : Ordering) :
    statusCode outcome = 0 ∨ statusCode outcome = 1 ∨ statusCode outcome = 2 := by
  cases outcome with
  | eq => exact .inl rfl
  | lt => exact .inr (.inl rfl)
  | gt => exact .inr (.inr rfl)

theorem Sound.withStatus {r : Registers} (h : r.Sound) (outcome : Ordering) :
    ({ r with sw := statusCode outcome } : Registers).Sound where
  word := by
    have hstatus : statusCode outcome < Word.modulus := by cases outcome <;> decide
    intro register
    cases register with
    | sw => exact hstatus
    | a => exact h.word .a
    | x => exact h.word .x
    | l => exact h.word .l
    | pc => exact h.word .pc
    | s => exact h.word .s
  status := statusCode_cases outcome

theorem Sound.exists_outcome {r : Registers} (h : r.Sound) : ∃ outcome, r.outcome? = some outcome := by
  unfold outcome?
  rcases h.status with hsw | hsw | hsw <;> rw [hsw]
  · exact ⟨.eq, rfl⟩
  · exact ⟨.lt, rfl⟩
  · exact ⟨.gt, rfl⟩

end Tribyte.Registers

namespace Tribyte

/-- The jumps that look at the last comparison. -/
def Opcode.conditionalJumps : List Opcode := [.jeq, .jlt, .jgt]

/-- The conditional jump that is taken after a comparison with this outcome. -/
def Opcode.jumpOn : Ordering → Opcode
  | .eq => .jeq
  | .lt => .jlt
  | .gt => .jgt

theorem Opcode.jumpOn_mem (outcome : Ordering) : jumpOn outcome ∈ conditionalJumps := by
  cases outcome <;> decide

/-- No load goes to the status word. -/
theorem Opcode.ne_sw_of_load {op : Opcode} {register : Register} {width : Width}
    (h : op.effect = .load register width) : register ≠ .sw := by
  rintro rfl
  cases op <;> cases h

namespace Machine

/-! ### Steps -/

theorem sound_setRegister {m : Machine} (h : m.registers.Sound) {register : Register} (hne : register ≠ .sw)
    (value : Nat) : (m.setRegister register value).registers.Sound := h.set hne value

theorem sound_withAccumulator {m : Machine} (h : m.registers.Sound) {value : Nat} (hword : value < Word.modulus) :
    (m.withAccumulator value).registers.Sound := by
  show (m.registers.poke .a value).Sound
  exact h.poke (by decide) hword

theorem sound_compareWords {m : Machine} (h : m.registers.Sound) (lhs rhs : Nat) :
    (m.compareWords lhs rhs).registers.Sound := h.withStatus _

theorem sound_execute {m : Machine} (h : m.registers.Sound) (op : Opcode) (address : Nat) :
    (m.execute op.effect address).2.registers.Sound := by
  cases heffect : op.effect with
  | load register width =>
    simp only [execute]
    split
    · exact h
    · exact sound_setRegister h (Opcode.ne_sw_of_load heffect) _
  | store =>
    simp only [execute]
    split <;> exact h
  | compare =>
    simp only [execute]
    split
    · exact h
    · exact sound_compareWords h _ _
  | countIndex =>
    have hcounted : (m.setRegister .x (m.registers.x + 1)).registers.Sound :=
      sound_setRegister h (by decide) _
    simp only [execute]
    split
    · exact hcounted
    · exact sound_compareWords hcounted _ _
  | add | subtract =>
    simp only [execute]
    split
    · exact h
    · exact sound_withAccumulator h (Word.ofSigned_lt _)
  | call => exact sound_setRegister h (by decide) _
  | receive =>
    simp only [execute]
    split
    · exact h
    · exact h
    · exact sound_withAccumulator h (Word.byte_lt _)
  | send =>
    simp only [execute]
    split <;> exact h
  | jump | leave | halt | idle => exact h

theorem sound_follow {m : Machine} (h : m.registers.Sound) (pc : Nat) (flow : Flow) :
    (m.follow pc flow).registers.Sound := by
  cases flow with
  | next | jump => exact sound_setRegister h (by decide) _
  | halt => exact h

theorem sound_step {m : Machine} (h : m.registers.Sound) : m.step.2.registers.Sound :=
  step_keeps (P := fun n => n.registers.Sound) h (fun i => sound_execute h i.opcode _)
    fun pc flow hn => sound_follow hn pc flow

/-- Of the conditional jumps the one for the outcome is taken, and the others are passed over. -/
theorem step_conditionalJump {m : Machine} {outcome : Ordering} (houtcome : m.registers.outcome? = some outcome)
    {i : Instruction} (hi : m.Fetches i) (hjump : i.opcode ∈ Opcode.conditionalJumps) :
    m.step =
      if i.opcode = .jumpOn outcome then
        (.ok (.jump (m.effectiveAddress i)), m.setRegister .pc (m.effectiveAddress i))
      else (.ok .next, m.setRegister .pc (m.registers.pc + Instruction.size)) := by
  have hjump : i.opcode = .jeq ∨ i.opcode = .jlt ∨ i.opcode = .jgt := by
    simpa [Opcode.conditionalJumps] using hjump
  rw [step_eq hi]
  rcases hjump with hop | hop | hop <;> rw [hop] <;> simp only [Opcode.effect, execute, houtcome] <;>
    cases outcome <;> rfl

/-! ### After a reset -/

/-- The machines that steps can lead to from a reset, whether they trap or not. The console may change in any way
between two steps. -/
inductive Reached (pc : Nat) (memory : Memory) : Machine → Prop where
  | reset (console : Console) : Reached pc memory { registers := .reset pc, memory, console }
  | step {m : Machine} (h : Reached pc memory m) : Reached pc memory m.step.2
  | console {m : Machine} (h : Reached pc memory m) (console : Console) : Reached pc memory { m with console }

namespace Reached

variable {pc : Nat} {memory : Memory} {m : Machine}

theorem sound (h : Reached pc memory m) : m.registers.Sound := by
  induction h with
  | reset => exact Registers.sound_reset pc
  | step _ ih => exact sound_step ih
  | console _ _ ih => exact ih

theorem size_eq (h : Reached pc memory m) : m.memory.size = memory.size := by
  induction h with
  | reset => rfl
  | step _ ih => rw [size_step, ih]
  | console _ _ ih => exact ih

end Reached

/-- After any steps from a reset every register holds a word, the status word holds an outcome, and memory has the
size it had. With these registers one conditional jump is taken, wherever it stands, and the other two are not. -/
theorem registers_hold_words {pc : Nat} {memory : Memory} {m : Machine} (h : Reached pc memory m) :
    (∀ register, m.registers.get register < Word.modulus) ∧
    (m.registers.sw = 0 ∨ m.registers.sw = 1 ∨ m.registers.sw = 2) ∧
    m.registers.outcome? ≠ none ∧
    (∃ taken ∈ Opcode.conditionalJumps, ∀ (n : Machine) (i : Instruction), n.registers = m.registers →
      n.Fetches i → i.opcode ∈ Opcode.conditionalJumps →
      n.step =
        if i.opcode = taken then
          (.ok (.jump (n.effectiveAddress i)), n.setRegister .pc (n.effectiveAddress i))
        else (.ok .next, n.setRegister .pc (n.registers.pc + Instruction.size))) ∧
    m.memory.size = memory.size := by
  obtain ⟨outcome, houtcome⟩ := h.sound.exists_outcome
  refine ⟨h.sound.word, h.sound.status, ?_, ⟨.jumpOn outcome, Opcode.jumpOn_mem outcome, ?_⟩, h.size_eq⟩
  · rw [houtcome]
    exact Option.some_ne_none outcome
  · intro n i hregisters hi hjump
    exact step_conditionalJump (hregisters ▸ houtcome) hi hjump

/-- COMP with a word that is greater than zero, and TIX of an address outside memory. -/
def comparingMemory : Memory := (Memory.zeroed 16).fill 0 [0x0A, 6, 0, 0x0B, 0xFF, 0x7F, 5, 0, 0]

/-- The outcome of the first of these instructions is still there after the trap of the second. -/
theorem comparing_memory_holds_words :
    ∃ m, Reached 0x1000000 comparingMemory m ∧ m.registers = { a := 0, x := 1, pc := 3, sw := 1 } ∧
      (∀ register, m.registers.get register < Word.modulus) ∧ m.registers.outcome? = some .lt ∧
      m.memory.size = 16 := by
  have hreached : Reached 0x1000000 comparingMemory
      ({ registers := .reset 0x1000000, memory := comparingMemory } : Machine).step.2.step.2 :=
    .step (.step (.reset {}))
  obtain ⟨hwords, -, -, -, hsize⟩ := registers_hold_words hreached
  refine ⟨_, hreached, ?_, hwords, ?_, hsize⟩
  · decide +kernel
  · decide +kernel

end Machine

end Tribyte
