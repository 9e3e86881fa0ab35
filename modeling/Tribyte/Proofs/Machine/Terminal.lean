import Mathlib.Control.Monad.Basic
import Tribyte.Assembly.ObjectCode
import Tribyte.Proofs.Loading.Replay
import Tribyte.Proofs.Machine.Steps

/-! Where sequential execution ends.

A run stops at the terminal address by comparing it with the program counter, which has 24 bits. In a program
that fills the address space to its last bytes the counter goes back to zero instead of reaching it; everywhere
else the run stops (`sequential_end_iff`). -/
namespace Tribyte.Machine

/-- The end of the address space is the only place where the counter does not reach what lies ahead. -/
theorem le_wrap_iff {pc terminal : Nat} (hspace : pc + Instruction.size ≤ Memory.addressSpace)
    (hbelow : pc < terminal) (hend : terminal ≤ pc + Instruction.size) :
    terminal ≤ Word.wrap (pc + Instruction.size) ↔ pc + Instruction.size ≠ Memory.addressSpace := by
  simp only [Instruction.size, Memory.addressSpace, Word.wrap, Word.modulus] at *
  omega

end Tribyte.Machine

namespace Tribyte

/-- A loaded program that runs on to its terminal address stops there, with the machine as its last step has left
it, except at the very end of the address space: there the run goes on at address zero. -/
theorem sequential_end_iff {memory after : Memory} {image : List UInt8} {base : Nat} {program : Program}
    (hsize : memory.size ≤ Memory.addressSpace) (hload : loadImage memory image base = (.ok program, after))
    {console : Console} {k : Nat} {m m' : Machine}
    (hreach : program.runFor after console k = (none, m))
    (hstep : m.step = (.ok .next, m')) (hbelow : m.registers.pc < program.terminal)
    (hend : program.terminal ≤ m.registers.pc + Instruction.size) :
    (program.runFor after console (k + 1) = (some (.ok .terminal), m') ↔
      m.registers.pc + Instruction.size ≠ Memory.addressSpace) ∧
    (m.registers.pc + Instruction.size ≠ Memory.addressSpace → ∀ limit, (∀ n, limit = some n → k < n) →
      program.run after console limit = (.ok .terminal, m')) ∧
    (m.registers.pc + Instruction.size = Memory.addressSpace →
      memory.size = Memory.addressSpace ∧ m'.registers.pc = 0 ∧
      program.runFor after console (k + 1) = (none, m')) := by
  have hmsize : m.memory.size = memory.size := by
    have hrun : (program.runFor after console k).2.memory.size = after.size := Machine.size_runFor ..
    rw [hreach] at hrun
    rw [hrun, ← size_loadImage memory image base, hload]
  obtain ⟨hinside, hpc⟩ := Machine.step_next hstep
  rw [hmsize] at hinside
  have hreaches := Machine.le_wrap_iff (Nat.le_trans hinside hsize) hbelow hend
  have hrun : program.runFor after console (k + 1) =
      (if program.terminal ≤ m'.registers.pc then some (.ok .terminal) else none, m') := by
    rw [Program.runFor, Machine.runFor_succ_of_running hreach, Machine.turn_of_next hstep]
  rw [hpc] at hrun
  refine ⟨?_, ?_, ?_⟩
  · rw [hrun, ← hreaches]
    simp
  · intro hne limit hlimit
    rw [if_pos (hreaches.mpr hne)] at hrun
    exact Machine.run_of_runFor hrun fun n hn => hlimit n hn
  · intro heq
    refine ⟨Nat.le_antisymm hsize (heq ▸ hinside), ?_, ?_⟩
    · rw [hpc, heq]
      rfl
    · rw [hrun, if_neg fun hle => hreaches.mp hle heq]

/-- The image of a program that is one NOP. -/
def nopImage : List UInt8 := [0, 80, 0, 0, 0, 0, 0, 0, 0, 0, 3, 0, 0, 1, 0, 0, 0, 3, 23, 0, 0, 2, 0, 0, 0]

/-- That program ends at its terminal address when it is loaded at zero, and not when it fills the last three
bytes of the address space. -/
theorem nop_program_ends :
    assemble "P START 0000\n NOP\n END\n" = .ok (decodeImage nopImage) ∧
    (∃ program after m', loadImage (.zeroed 0x1000000) nopImage 0 = (.ok program, after) ∧
      program.run after {} none = (.ok .terminal, m')) ∧
    ∃ program after m', loadImage (.zeroed 0x1000000) nopImage 0xFFFFFD = (.ok program, after) ∧
      program.terminal = 0x1000000 ∧ m'.registers.pc = 0 ∧
      program.runFor after {} 1 = (none, m') := by
  have hload (base : Nat) (program : Program)
      (h : (loadImage (.zeroed 0x1000000) nopImage base).1 = .ok program) :
      loadImage (.zeroed 0x1000000) nopImage base = (.ok program, (loadImage (.zeroed 0x1000000) nopImage base).2) :=
    Prod.ext h rfl
  refine ⟨by decide +kernel, ?_, ?_⟩
  · have hload := hload 0 ⟨"P", 0, 0, 0, 3⟩ (by decide +kernel)
    have hstep : (Program.start ⟨"P", 0, 0, 0, 3⟩ (loadImage (.zeroed 0x1000000) nopImage 0).2 {}).step =
      (.ok .next, _) := Prod.ext (by decide +kernel) rfl
    have h := sequential_end_iff (Nat.le_refl _) hload (k := 0) rfl hstep (by decide) (by decide)
    exact ⟨_, _, _, hload, h.2.1 (by decide) none (by simp)⟩
  · have hload := hload 0xFFFFFD ⟨"P", 0xFFFFFD, 0xFFFFFD, 0xFFFFFD, 0x1000000⟩ (by decide +kernel)
    have hstep : (Program.start ⟨"P", 0xFFFFFD, 0xFFFFFD, 0xFFFFFD, 0x1000000⟩
        (loadImage (.zeroed 0x1000000) nopImage 0xFFFFFD).2 {}).step = (.ok .next, _) :=
      Prod.ext (by decide +kernel) rfl
    have h := sequential_end_iff (Nat.le_refl _) hload (k := 0) rfl hstep (by decide) (by decide)
    obtain ⟨-, hpc, hrun⟩ := h.2.2 (by decide)
    exact ⟨_, _, _, hload, rfl, hpc, hrun⟩

end Tribyte
