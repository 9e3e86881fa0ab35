import Tribyte.Proofs.Machine.Runs

/-! Two machines side by side.

Where related machines take the same steps, up to traps that are excepted (`Lockstep`), they run alike until one of
these traps: turn by turn, for any number of steps, and to the end of a run with or without a limit. -/
namespace Tribyte.Machine

/-- Related machines take the same steps, but for those that trap as excepted. -/
structure Lockstep (R : Machine → Machine → Prop) (excepted : Trap → Prop) : Prop where
  registers : ∀ {m n : Machine}, R m n → n.registers = m.registers
  step : ∀ {m n : Machine}, R m n → (∀ t, m.step.1 = .error t → ¬excepted t) →
    n.step.1 = m.step.1 ∧ R m.step.2 n.step.2

namespace Lockstep

variable {R : Machine → Machine → Prop} {excepted : Trap → Prop} (L : Lockstep R excepted) {m n : Machine}
include L

theorem turn {terminal : Nat} (h : R m n) (hturn : ∀ t, (m.turn terminal).1 = some (.error t) → ¬excepted t) :
    (n.turn terminal).1 = (m.turn terminal).1 ∧ R m.step.2 n.step.2 := by
  obtain ⟨hresult, hrel⟩ := L.step h fun t ht => hturn t (turn_eq_error_iff.mpr ht)
  refine ⟨?_, hrel⟩
  rw [turn_fst, turn_fst, hresult, L.registers hrel]

theorem runFor {terminal : Nat} (h : R m n) (k : Nat)
    (hrun : ∀ t, (m.runFor terminal k).1 = some (.error t) → ¬excepted t) :
    (n.runFor terminal k).1 = (m.runFor terminal k).1 ∧
      R (m.runFor terminal k).2 (n.runFor terminal k).2 := by
  induction k generalizing m n with
  | zero => exact ⟨rfl, h⟩
  | succ k ih =>
    rw [runFor_succ] at hrun ⊢
    rw [runFor_succ]
    -- A turn that traps ends the run, and how the run ends is not excepted.
    have hturn (t : Trap) (ht : (m.turn terminal).1 = some (.error t)) : ¬excepted t := by
      rw [ht] at hrun
      exact hrun t rfl
    obtain ⟨hresult, hrel⟩ := L.turn h hturn
    rw [hresult]
    cases hend : (m.turn terminal).1 with
    | none =>
      rw [hend] at hrun
      exact ih hrel hrun
    | some result => exact ⟨rfl, hrel⟩

theorem running {terminal k : Nat} {m' : Machine} (h : R m n) (hrun : m.runFor terminal k = (none, m')) :
    ∃ n', n.runFor terminal k = (none, n') ∧ R m' n' := by
  obtain ⟨hgoing, hrel⟩ := L.runFor h k (by rw [hrun]; simp)
  rw [hrun] at hgoing hrel
  exact ⟨(n.runFor terminal k).2, Prod.ext hgoing rfl, hrel⟩

theorem stops {terminal k : Nat} {result : Except Trap Halt} {m' : Machine} (h : R m n)
    (hresult : ∀ t, result = .error t → ¬excepted t) (hstops : m.Stops terminal k result m') :
    ∃ n', n.Stops terminal k result n' ∧ R m' n' := by
  obtain ⟨_, hgoing, -⟩ := L.running h (Prod.ext hstops.going rfl)
  obtain ⟨hended, hrel⟩ := L.runFor h (k + 1) (by rw [hstops.ended]; simpa using hresult)
  rw [hstops.ended] at hended hrel
  exact ⟨(n.runFor terminal (k + 1)).2, ⟨by rw [hgoing], Prod.ext hended rfl⟩, hrel⟩

/-- Runs that end at all end alike. -/
theorem run {terminal : Nat} {limit : Option Nat} (h : R m n)
    (hends : limit ≠ none ∨ ∃ k, (m.runFor terminal k).1 ≠ none)
    (hrun : ∀ t, (m.run terminal limit).1 = .error t → ¬excepted t) :
    (n.run terminal limit).1 = (m.run terminal limit).1 ∧
      R (m.run terminal limit).2 (n.run terminal limit).2 := by
  refine run_agree (f := id) (fun _ => rfl) ?_ hends
  intro k hk
  rw [Option.map_id, id]
  apply L.runFor h k
  intro t ht
  apply hrun
  rw [run_of_runFor (Prod.ext ht rfl) hk]

end Lockstep

end Tribyte.Machine
