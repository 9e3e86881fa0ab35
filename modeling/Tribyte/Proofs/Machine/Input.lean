import Mathlib.Control.Monad.Basic
import Tribyte.Proofs.Machine.Lockstep

/-! Console input in pieces.

Nothing depends on input that has not been read: a machine that is fed more bytes takes the same steps
(`step_feed`), until it asks for a byte and there is none. That trap leaves the machine as it was, so the bytes may
as well come later (`input_in_pieces`). Reading takes bytes off the front of the input, and writing puts them behind
the output (`Console.Advances`). -/
namespace Tribyte

/-- What can become of a console: bytes are read off its input and written behind its output. -/
structure Console.Advances (c c' : Console) : Prop where
  input : c'.input <:+ c.input
  output : c.output.toList <+: c'.output.toList

namespace Console.Advances

theorem refl (c : Console) : c.Advances c := ⟨List.suffix_refl _, List.prefix_refl _⟩

theorem trans {c c' c'' : Console} (h : c.Advances c') (h' : c'.Advances c'') : c.Advances c'' :=
  ⟨h'.input.trans h.input, h.output.trans h'.output⟩

end Console.Advances

namespace Machine

/-! ### What is read and written -/

theorem console_withRegisters (m : Machine) (r : Registers) :
    ({ m with registers := r } : Machine).console = m.console := rfl

theorem console_setRegister (m : Machine) (register : Register) (value : Nat) :
    (m.setRegister register value).console = m.console := m.console_withRegisters _

theorem console_withAccumulator (m : Machine) (value : Nat) : (m.withAccumulator value).console = m.console :=
  m.console_withRegisters _

theorem console_compareWords (m : Machine) (lhs rhs : Nat) : (m.compareWords lhs rhs).console = m.console :=
  m.console_withRegisters _

theorem advances_execute (m : Machine) (e : Effect) (address : Nat) :
    m.console.Advances (m.execute e address).2.console := by
  cases e with
  | load =>
    simp only [execute]
    split
    · exact .refl _
    · rw [console_setRegister]
      exact .refl _
  | add | subtract =>
    simp only [execute]
    split
    · exact .refl _
    · rw [console_withAccumulator]
      exact .refl _
  | store =>
    simp only [execute]
    split <;> exact .refl _
  | compare =>
    simp only [execute]
    split
    · exact .refl _
    · rw [console_compareWords]
      exact .refl _
  | countIndex =>
    simp only [execute]
    split
    · rw [console_setRegister]
      exact .refl _
    · rw [console_compareWords, console_setRegister]
      exact .refl _
  | receive =>
    simp only [execute]
    split
    · exact .refl _
    · exact .refl _
    · rename_i b rest _ hinput
      refine ⟨?_, List.prefix_refl _⟩
      rw [hinput]
      exact List.suffix_cons b rest
  | send =>
    simp only [execute]
    split
    · exact .refl _
    · refine ⟨List.suffix_refl _, ?_⟩
      rw [Array.toList_push]
      exact List.prefix_append _ _
  | jump | call | leave | halt | idle => exact .refl _

theorem console_follow (m : Machine) (pc : Nat) (flow : Flow) : (m.follow pc flow).console = m.console := by
  cases flow <;> rfl

theorem advances_step (m : Machine) : m.console.Advances m.step.2.console := by
  refine step_keeps (P := fun n => m.console.Advances n.console) (.refl _) (fun _ => m.advances_execute _ _) ?_
  intro n pc flow hn
  rw [console_follow]
  exact hn

theorem advances_runFor (terminal k : Nat) (m : Machine) :
    m.console.Advances (m.runFor terminal k).2.console :=
  runFor_keeps (P := fun n => m.console.Advances n.console) (fun hn => hn.trans (advances_step _)) (.refl _) terminal k

/-- Later in a run less is unread and more is written. -/
theorem advances_of_le {terminal j k : Nat} (h : j ≤ k) (m : Machine) :
    (m.runFor terminal j).2.console.Advances (m.runFor terminal k).2.console := by
  obtain ⟨more, rfl⟩ := Nat.exists_eq_add_of_le h
  rw [runFor_add]
  rcases m.runFor terminal j with ⟨_ | result, m'⟩
  · exact m'.advances_runFor terminal more
  · exact .refl _

/-! ### What is not read -/

/-- More bytes behind the input that has not been read. -/
def feed (more : List UInt8) (m : Machine) : Machine :=
  { m with console := { m.console with input := m.console.input ++ more } }

section
variable (m : Machine) (more : List UInt8)

theorem registers_feed : (m.feed more).registers = m.registers := rfl

theorem memory_feed : (m.feed more).memory = m.memory := rfl

theorem operand_feed (width : Width) (address : Nat) :
    (m.feed more).operand width address = m.operand width address := rfl

theorem fetch_feed : (m.feed more).fetch = m.fetch := rfl

theorem effectiveAddress_feed (i : Instruction) : (m.feed more).effectiveAddress i = m.effectiveAddress i := rfl

theorem feed_withRegisters (r : Registers) :
    ({ m.feed more with registers := r } : Machine) = ({ m with registers := r } : Machine).feed more := rfl

theorem setRegister_feed (register : Register) (value : Nat) :
    (m.feed more).setRegister register value = (m.setRegister register value).feed more :=
  m.feed_withRegisters more _

theorem withAccumulator_feed (value : Nat) :
    (m.feed more).withAccumulator value = (m.withAccumulator value).feed more :=
  m.feed_withRegisters more _

theorem compareWords_feed (lhs rhs : Nat) :
    (m.feed more).compareWords lhs rhs = (m.compareWords lhs rhs).feed more :=
  m.feed_withRegisters more _

theorem follow_feed (pc : Nat) (flow : Flow) : (m.feed more).follow pc flow = (m.follow pc flow).feed more := by
  cases flow with
  | next | jump => exact m.setRegister_feed more _ _
  | halt => rfl

end

theorem execute_feed {m : Machine} {e : Effect} {address : Nat} (more : List UInt8)
    (h : ∀ pc, (m.execute e address).1 ≠ .error (.noInput pc)) :
    (m.feed more).execute e address = ((m.execute e address).1, (m.execute e address).2.feed more) := by
  cases e with
  | load | compare | countIndex | add | subtract =>
    simp only [execute, operand_feed, registers_feed, setRegister_feed, withAccumulator_feed, compareWords_feed]
    split <;> rfl
  | store =>
    simp only [execute, registers_feed, memory_feed]
    split <;> rfl
  | receive =>
    cases hfault : m.console.readFault with
    | some message => simp only [execute, feed, hfault]
    | none =>
      cases hinput : m.console.input with
      | nil =>
        simp only [execute, hfault, hinput] at h
        exact absurd rfl (h m.registers.pc)
      | cons b rest =>
        simp only [execute, feed, hfault, hinput, List.cons_append]
        rfl
  | send =>
    cases hfault : m.console.writeFault with
    | some message => simp only [execute, feed, hfault]
    | none => simp only [execute, feed, hfault]
  | jump | leave | halt | idle => rfl
  | call => simp only [execute, registers_feed, setRegister_feed]

/-- A step that does not ask for input in vain is the same with more input behind. -/
theorem step_feed {m : Machine} (more : List UInt8) (h : ∀ pc, m.step.1 ≠ .error (.noInput pc)) :
    (m.feed more).step = (m.step.1, m.step.2.feed more) := by
  by_cases hinside : m.registers.pc + Instruction.size ≤ m.memory.size
  · cases hdecode : Instruction.decode? (m.memory.bytes m.registers.pc Instruction.size) with
    | none =>
      have hstep : (m.feed more).step = _ := step_of_unknown hinside hdecode
      rw [hstep, step_of_unknown hinside hdecode]
      rfl
    | some i =>
      have hi : m.Fetches i := ⟨hinside, hdecode⟩
      have hi' : (m.feed more).Fetches i := ⟨hinside, hdecode⟩
      rw [step_fst hi] at h
      apply Prod.ext
      · rw [step_fst hi', step_fst hi, effectiveAddress_feed, execute_feed more h]
      · rw [step_snd hi', step_snd hi, effectiveAddress_feed, execute_feed more h, registers_feed]
        dsimp only
        split
        · rfl
        · rw [follow_feed]
  · obtain ⟨address, cause, hfetch⟩ := fetch_eq_error hinside
    simp only [step, fetch_feed, hfetch]

theorem lockstep_feed (more : List UInt8) :
    Lockstep (fun m n => n = m.feed more) (fun t => ∃ pc, t = .noInput pc) where
  registers := by
    rintro m n rfl
    rfl
  step := by
    rintro m n rfl htrap
    have hstep := step_feed more fun pc hpc => htrap _ hpc ⟨pc, rfl⟩
    rw [hstep]
    exact ⟨rfl, rfl⟩

/-- A run that stops for want of input has used up what there was, and stands where the step before left it. -/
theorem Stops.of_noInput {terminal k pc : Nat} {m m' : Machine} (h : m.Stops terminal k (.error (.noInput pc)) m') :
    m.runFor terminal k = (none, m') ∧ m'.console.input = [] := by
  have hgoing : m.runFor terminal k = (none, (m.runFor terminal k).2) := Prod.ext h.going rfl
  have hturn := (runFor_succ_of_running hgoing).symm.trans h.ended
  have hstep : (m.runFor terminal k).2.step = (.error (.noInput pc), m') :=
    Prod.ext (turn_eq_error_iff.mp (congrArg Prod.fst hturn))
      ((turn_snd terminal _).symm.trans (congrArg Prod.snd hturn))
  rcases step_trap_cases hstep with ⟨_, _, ht⟩ | ⟨_, ht⟩ | ⟨_, ht⟩ | ⟨-, hsame, hinput⟩
  · cases ht
  · cases ht
  · cases ht
  · rw [hsame]
    exact ⟨hgoing, hinput⟩

/-- Input may come in pieces. A run that stops for another reason than want of input stops the same way with more
input behind, which it leaves unread. A run that wants input stands where the run on all of the input passes, and
goes on from there as that one does. At any time what is unread is a last part of what was there before, and what is
written starts with what was written before. -/
theorem input_in_pieces (terminal : Nat) (m : Machine) (more : List UInt8) :
    (∀ k result m', m.Stops terminal k result m' → (∀ pc, result ≠ .error (.noInput pc)) →
      (m.feed more).Stops terminal k result (m'.feed more) ∧
      (m.feed more).run terminal none = (result, m'.feed more)) ∧
    (∀ k pc m', m.Stops terminal k (.error (.noInput pc)) m' →
      m' = m.after k ∧ m'.console.input = [] ∧
      (m.feed more).runFor terminal k = (none, m'.feed more) ∧
      (∀ j, (m.feed more).runFor terminal (k + j) = (m'.feed more).runFor terminal j) ∧
      (m.feed more).run terminal none = (m'.feed more).run terminal none) ∧
    ∀ j k, j ≤ k →
      (m.runFor terminal k).2.console.input <:+ (m.runFor terminal j).2.console.input ∧
      (m.runFor terminal j).2.console.output.toList <+: (m.runFor terminal k).2.console.output.toList := by
  refine ⟨?_, ?_, ?_⟩
  · intro k result m' hstops hresult
    have hexcepted (t : Trap) (ht : result = .error t) : ¬∃ pc, t = .noInput pc := by
      rintro ⟨pc, rfl⟩
      exact hresult pc ht
    obtain ⟨n', hfed, rfl⟩ := (lockstep_feed more).stops rfl hexcepted hstops
    exact ⟨hfed, run_of_runFor hfed.ended (by simp)⟩
  · intro k pc m' hstops
    obtain ⟨hrun, hinput⟩ := hstops.of_noInput
    obtain ⟨_, hfed, rfl⟩ := (lockstep_feed more).running rfl hrun
    refine ⟨(runFor_eq_none_iff.mp hrun).2, hinput, hfed, ?_, runOn_of_running hfed⟩
    intro j
    rw [runFor_add, hfed]
  · intro j k hle
    obtain ⟨hinput, houtput⟩ := advances_of_le hle m
    exact ⟨hinput, houtput⟩

/-- A machine that reads a byte, writes it, reads another and halts, with input for the first. -/
def readingMachine : Machine :=
  boot ((Memory.zeroed 16).fill 0 [0x14, 0, 0, 0x15, 0, 0, 0x14, 0, 0, 0x16, 0, 0]) 0 [0x41]

/-- It stops at the second read, and with one more byte it halts as it does with both from the start. -/
theorem reading_machine_goes_on :
    ∃ m', readingMachine.Stops 16 2 (.error (.noInput 6)) m' ∧
      (readingMachine.feed [0x42]).run 16 none = (m'.feed [0x42]).run 16 none ∧
      (readingMachine.feed [0x42]).runFor 16 (2 + 2) = (m'.feed [0x42]).runFor 16 2 ∧
      ((m'.feed [0x42]).runFor 16 2).1 = some (.ok .halted) := by
  have hstops : readingMachine.Stops 16 2 (.error (.noInput 6)) (readingMachine.runFor 16 3).2 :=
    ⟨by decide +kernel, Prod.ext (by decide +kernel) rfl⟩
  obtain ⟨-, hnoInput, -⟩ := input_in_pieces 16 readingMachine [0x42]
  obtain ⟨-, -, -, hgoes, hrun⟩ := hnoInput 2 6 _ hstops
  exact ⟨_, hstops, hrun, hgoes 2, by decide +kernel⟩

end Machine

end Tribyte
