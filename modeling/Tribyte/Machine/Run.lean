import Tribyte.Machine.Step

/-! Runs: steps until the machine halts or traps.

A run ends at the terminal address only where sequential execution reaches it; a jump beyond it goes on.
`runFor` takes a given number of steps and is the base of all runs. `runOn` has no limit: it agrees with
`runFor` wherever enough steps lead to an end (`runOn_of_runFor`). -/
namespace Tribyte.Machine

/-- One step of a run, and how the run ends with it, if it does. -/
def turn (terminal : Nat) (m : Machine) : Option (Except Trap Halt) × Machine :=
  match m.step with
  | (.error t, m') => (some (.error t), m')
  | (.ok (.halt reason), m') => (some (.ok reason), m')
  | (.ok .next, m') =>
    (if terminal ≤ m'.registers.pc then some (.ok .terminal) else none, m')
  | (.ok (.jump _), m') => (none, m')

/-- At most `steps` steps; `none` where the machine is still running after them. -/
def runFor (terminal : Nat) : (steps : Nat) → Machine → Option (Except Trap Halt) × Machine
  | 0, m => (none, m)
  | n + 1, m =>
    match m.turn terminal with
    | (some result, m') => (some result, m')
    | (none, m') => runFor terminal n m'

/-- A run under a step limit. A machine that is still running when the limit is reached has trapped. -/
def runWithin (terminal limit : Nat) (m : Machine) : Except Trap Halt × Machine :=
  match m.runFor terminal limit with
  | (some result, m') => (result, m')
  | (none, m') => (.error (.stepLimit limit), m')

instance : Nonempty Machine := ⟨{ memory := .zeroed 0 }⟩

instance : Nonempty (Except Trap Halt) := ⟨.ok .terminal⟩

/-- A run without a limit. Nothing but `runOn_eq` is known of the result where the machine never stops. -/
def runOn (terminal : Nat) (m : Machine) : Except Trap Halt × Machine :=
  Id.run <| repeatM (fun m => pure <|
    match m.turn terminal with
    | (some result, m') => .inr (result, m')
    | (none, m') => .inl m') m

/-- A run, under a step limit if there is one. -/
def run (terminal : Nat) (limit : Option Nat) (m : Machine) : Except Trap Halt × Machine :=
  match limit with
  | some n => m.runWithin terminal n
  | none => m.runOn terminal

theorem runOn_eq (terminal : Nat) (m : Machine) :
    m.runOn terminal = match m.turn terminal with
      | (some result, m') => (result, m')
      | (none, m') => m'.runOn terminal := by
  simp only [runOn, Id.run]
  rw [repeatM_eq_of_monadTail, repeatM.body]
  rcases m.turn terminal with ⟨_ | result, m'⟩ <;> rfl

/-- A run that stops within some number of steps stops the same way without a limit. -/
theorem runOn_of_runFor {terminal n : Nat} {m m' : Machine} {result : Except Trap Halt}
    (h : m.runFor terminal n = (some result, m')) : m.runOn terminal = (result, m') := by
  induction n generalizing m with
  | zero => simp [runFor] at h
  | succ n ih =>
    rw [runFor] at h
    rw [runOn_eq]
    split at h <;> simp_all

/-- A machine about to execute a loaded program. -/
def boot (memory : Memory) (entry : Nat) (input : List UInt8) : Machine :=
  { registers := .reset entry, memory, console := { input } }

end Tribyte.Machine
