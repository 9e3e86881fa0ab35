import Mathlib.Control.Monad.Basic
import Tribyte.Proofs.Machine.Traps

/-! Runs against the steps they are made of.

`after` counts steps and does not ask what they return; `Proceeds` says that a step does not end the run. A run is
still going after some steps exactly where all of them proceed (`runFor_eq_none_iff`), and no step speaks of a limit.
So a limit cuts a run and changes nothing else about it: what was cut can be continued, and a run that ends within
its limit ends the same way under every larger one and under none (`limit_only_cuts`). -/
namespace Tribyte.Machine

/-- The machine after `k` steps, whatever they return. -/
def after : (k : Nat) → Machine → Machine
  | 0, m => m
  | k + 1, m => after k m.step.2

/-- The next step neither halts nor traps, nor does it run on to the terminal address. -/
def Proceeds (terminal : Nat) (m : Machine) : Prop :=
  match m.step with
  | (.ok .next, m') => m'.registers.pc < terminal
  | (.ok (.jump _), _) => True
  | (.ok (.halt _), _) | (.error _, _) => False

theorem turn_fst (terminal : Nat) (m : Machine) :
    (m.turn terminal).1 = match m.step.1 with
      | .error t => some (.error t)
      | .ok (.halt reason) => some (.ok reason)
      | .ok .next => if terminal ≤ m.step.2.registers.pc then some (.ok .terminal) else none
      | .ok (.jump _) => none := by
  rw [turn]
  rcases m.step with ⟨t | flow, m'⟩
  · rfl
  · cases flow <;> rfl

theorem turn_eq_none_iff {terminal : Nat} {m : Machine} :
    (m.turn terminal).1 = none ↔ m.Proceeds terminal := by
  unfold turn Proceeds
  rcases m.step with ⟨t | flow, m'⟩
  · simp
  · cases flow <;> simp

theorem turn_eq_error_iff {terminal : Nat} {m : Machine} {t : Trap} :
    (m.turn terminal).1 = some (.error t) ↔ m.step.1 = .error t := by
  rw [turn_fst]
  rcases m.step with ⟨t' | flow, m'⟩
  · simp
  · cases flow with
    | next =>
      dsimp only
      split <;> simp
    | jump | halt => simp

/-- A run that is still going has made steps that proceed. -/
theorem runFor_eq_none_iff {terminal k : Nat} {m m' : Machine} :
    m.runFor terminal k = (none, m') ↔ (∀ j, j < k → (m.after j).Proceeds terminal) ∧ m' = m.after k := by
  induction k generalizing m with
  | zero => simp [runFor, after, eq_comm]
  | succ k ih =>
    rw [runFor_succ, Nat.forall_lt_succ_left, after, after, ← turn_eq_none_iff]
    cases (m.turn terminal).1 with
    | none => simp only [ih, after, true_and]
    | some result => simp

/-- No step speaks of a limit. -/
theorem turn_ne_stepLimit (terminal steps : Nat) (m : Machine) :
    (m.turn terminal).1 ≠ some (.error (.stepLimit steps)) := by
  intro h
  have hstep : m.step = (.error (.stepLimit steps), m.step.2) := Prod.ext (turn_eq_error_iff.mp h) rfl
  rcases step_trap_cases hstep with ⟨_, _, ht⟩ | ⟨_, ht⟩ | ⟨_, ht⟩ | ⟨ht, -⟩ <;> cases ht

theorem runFor_ne_stepLimit (terminal steps k : Nat) (m : Machine) :
    (m.runFor terminal k).1 ≠ some (.error (.stepLimit steps)) := by
  induction k generalizing m with
  | zero => simp [runFor]
  | succ k ih =>
    have hturn := m.turn_ne_stepLimit terminal steps
    rw [runFor_succ]
    cases hresult : (m.turn terminal).1 with
    | none => exact ih m.step.2
    | some result =>
      rw [hresult] at hturn
      exact hturn

/-- A run that is still going goes on without a limit as it would from the start. -/
theorem runOn_of_running {terminal k : Nat} {m m' : Machine} (h : m.runFor terminal k = (none, m')) :
    m.runOn terminal = m'.runOn terminal := by
  induction k generalizing m with
  | zero =>
    cases h
    rfl
  | succ k ih =>
    rw [runFor] at h
    rw [runOn_eq]
    rcases hturn : m.turn terminal with ⟨_ | result, n⟩ <;> rw [hturn] at h
    · exact ih h
    · cases h

/-- The run goes on for `k` steps and ends with the one after them. -/
structure Stops (m : Machine) (terminal k : Nat) (result : Except Trap Halt) (m' : Machine) : Prop where
  going : (m.runFor terminal k).1 = none
  ended : m.runFor terminal (k + 1) = (some result, m')

/-! ### Limits -/

theorem run_of_running {terminal n : Nat} {m m' : Machine} (h : m.runFor terminal n = (none, m')) :
    m.run terminal (some n) = (.error (.stepLimit n), m') := by
  rw [run, runWithin, h]

theorem run_of_ended {terminal n : Nat} {m m' : Machine} {result : Except Trap Halt}
    (h : m.runFor terminal n = (some result, m')) : m.run terminal (some n) = (result, m') := by
  rw [run, runWithin, h]

theorem run_eq_stepLimit_iff {terminal n steps : Nat} {m : Machine} :
    (m.run terminal (some n)).1 = .error (.stepLimit steps) ↔
      steps = n ∧ ∀ k, k < n → (m.after k).Proceeds terminal := by
  constructor
  · intro h
    rcases hrun : m.runFor terminal n with ⟨_ | result, m'⟩
    · rw [run_of_running hrun] at h
      cases h
      exact ⟨rfl, (runFor_eq_none_iff.mp hrun).1⟩
    · have hlimit := m.runFor_ne_stepLimit terminal steps n
      rw [run_of_ended hrun] at h
      rw [hrun] at hlimit
      exact absurd (congrArg some h) hlimit
  · rintro ⟨rfl, hproceeds⟩
    rw [run_of_running (runFor_eq_none_iff.mpr ⟨hproceeds, rfl⟩)]

/-- The outcome of a run that went on after `n` steps, with these steps counted. -/
def recounted (n : Nat) : Except Trap Halt → Except Trap Halt
  | .error (.stepLimit steps) => .error (.stepLimit (n + steps))
  | result => result

theorem recounted_of_ne {n : Nat} {result : Except Trap Halt} (h : ∀ steps, result ≠ .error (.stepLimit steps)) :
    recounted n result = result := by
  unfold recounted
  split
  · exact absurd rfl (h _)
  · rfl

/-- A run that was cut goes on where it stopped. -/
theorem run_add {terminal n : Nat} {m m' : Machine} (h : m.runFor terminal n = (none, m')) (more : Nat) :
    m.run terminal (some (n + more)) = Prod.map (recounted n) id (m'.run terminal (some more)) := by
  have hadd : m.runFor terminal (n + more) = m'.runFor terminal more := by rw [runFor_add, h]
  rcases hrun : m'.runFor terminal more with ⟨_ | result, m''⟩
  · rw [run_of_running (hadd.trans hrun), run_of_running hrun]
    rfl
  · have hlimit (steps : Nat) : result ≠ .error (.stepLimit steps) := by
      rintro rfl
      exact m'.runFor_ne_stepLimit terminal steps more (by rw [hrun])
    rw [run_of_ended (hadd.trans hrun), run_of_ended hrun, Prod.map_apply, recounted_of_ne hlimit, id]

/-- A limit only cuts a run. It is reported exactly where none of that many steps ends the run, with the machine as
these steps leave it; a second run goes on from there as one run under both limits would; and a run that ends before
its limit ends the same way under every larger limit and under none. -/
theorem limit_only_cuts (terminal n : Nat) (m : Machine) :
    (∀ steps, (m.run terminal (some n)).1 = .error (.stepLimit steps) ↔
      steps = n ∧ ∀ k, k < n → (m.after k).Proceeds terminal) ∧
    ((m.run terminal (some n)).1 = .error (.stepLimit n) →
      (m.run terminal (some n)).2 = m.after n ∧
      ∀ more, m.run terminal (some (n + more)) =
        Prod.map (recounted n) id ((m.run terminal (some n)).2.run terminal (some more))) ∧
    ((∀ steps, (m.run terminal (some n)).1 ≠ .error (.stepLimit steps)) →
      (∀ larger, n ≤ larger → m.run terminal (some larger) = m.run terminal (some n)) ∧
      m.run terminal none = m.run terminal (some n)) := by
  refine ⟨fun steps => run_eq_stepLimit_iff, ?_, ?_⟩
  · intro hlimit
    have hrun : m.runFor terminal n = (none, m.after n) :=
      runFor_eq_none_iff.mpr ⟨(run_eq_stepLimit_iff.mp hlimit).2, rfl⟩
    rw [run_of_running hrun]
    exact ⟨rfl, run_add hrun⟩
  · intro hended
    rcases hrun : m.runFor terminal n with ⟨_ | result, m'⟩
    · rw [run_of_running hrun] at hended
      exact absurd rfl (hended n)
    · have hsame (limit : Option Nat) (hlimit : ∀ larger, limit = some larger → n ≤ larger) :
          m.run terminal limit = m.run terminal (some n) := by
        rw [run_of_runFor hrun hlimit, run_of_ended hrun]
      refine ⟨?_, hsame none (by simp)⟩
      intro larger hle
      exact hsame (some larger) fun k hk => Option.some.inj hk ▸ hle

/-- A machine that halts with its third step. -/
def haltingMachine : Machine := boot ((Memory.zeroed 16).fill 0 [0x17, 0, 0, 0x17, 0, 0, 0x16, 0, 0]) 0 []

/-- A limit of two cuts it short of its end, one more step leads there, and a limit of three is as good as none. -/
theorem halting_run_cut :
    (haltingMachine.run 16 (some 2)).1 = .error (.stepLimit 2) ∧
    (haltingMachine.run 16 (some 2)).2 = haltingMachine.after 2 ∧
    haltingMachine.run 16 (some 3) = Prod.map (recounted 2) id ((haltingMachine.after 2).run 16 (some 1)) ∧
    (haltingMachine.run 16 (some 3)).1 = .ok .halted ∧
    haltingMachine.run 16 none = haltingMachine.run 16 (some 3) := by
  have hlimit : (haltingMachine.run 16 (some 2)).1 = .error (.stepLimit 2) := by decide +kernel
  have hended : (haltingMachine.run 16 (some 3)).1 = .ok .halted := by decide +kernel
  obtain ⟨-, hcut, -⟩ := limit_only_cuts 16 2 haltingMachine
  obtain ⟨-, -, hsame⟩ := limit_only_cuts 16 3 haltingMachine
  obtain ⟨hafter, hmore⟩ := hcut hlimit
  obtain ⟨-, hnone⟩ := hsame (by simp [hended])
  exact ⟨hlimit, hafter, hafter ▸ hmore 1, hended, hnone⟩

end Tribyte.Machine
