import Mathlib.Control.Monad.Basic
import Tribyte.Proofs.Loading.Sequence
import Tribyte.Proofs.Machine.Lockstep

/-! Programs in a larger memory.

The size of memory is looked at only to refuse an access. So what succeeds in a memory succeeds in one that holds the
same bytes and has more room behind them (`Memory.Enlarged`), and leaves the two related as they were: reading and
writing, placing records, loading, and every step of the machine. A program that neither fails to load for want of
room nor traps on the bus is loaded and runs the same in every larger memory (`enlarging_keeps_programs`). -/
namespace Tribyte

/-- `m'` is `m` with its size raised from `small` to `large`, and clear where `m` ends. -/
structure Memory.Enlarged (small large : Nat) (m m' : Memory) : Prop where
  size : m.size = small
  size' : m'.size = large
  le : small ≤ large
  agree : ∀ x, x < small → m'.byte x = m.byte x
  clear : ∀ x, small ≤ x → m'.byte x = 0

/-- The errors that a larger memory can do away with. -/
def LoadError.isOfSize : LoadError → Bool
  | tooLarge _ _ _ | outOfBounds _ _ _ => true
  | missingHeader _ | duplicateHeader | missingEnd | relocationOverflow _ _ _ => false

theorem Memory.enlarged_zeroed {small large : Nat} (h : small ≤ large) :
    Enlarged small large (zeroed small) (zeroed large) where
  size := rfl
  size' := rfl
  le := h
  agree := by simp
  clear := by simp

namespace Memory.Enlarged

variable {small large : Nat} {m m' : Memory} (h : Enlarged small large m m')
include h

/-! ### Access -/

theorem room {stop : Nat} (hstop : stop ≤ m.size) : stop ≤ m'.size := by
  rw [h.size] at hstop
  rw [h.size']
  exact Nat.le_trans hstop h.le

theorem bytes_eq {address count : Nat} (hinside : address + count ≤ m.size) :
    m'.bytes address count = m.bytes address count := by
  rw [h.size] at hinside
  apply bytes_congr
  intro i hi
  exact h.agree (address + i) (by omega)

theorem fill {address : Nat} {bs : List UInt8} (hinside : address + bs.length ≤ m.size) :
    Enlarged small large (m.fill address bs) (m'.fill address bs) where
  size := (size_fill ..).trans h.size
  size' := (size_fill ..).trans h.size'
  le := h.le
  agree := by
    intro x hx
    rw [byte_fill, byte_fill, h.agree x hx]
  clear := by
    intro x hx
    rw [h.size] at hinside
    rw [byte_fill_of_outside m' (by omega), h.clear x hx]

theorem read {count address value : Nat} (hread : m.read count address = .ok value) :
    m'.read count address = .ok value := by
  unfold Memory.read at hread
  split at hread
  · rename_i hinside
    rw [read_eq_ok (h.room hinside), h.bytes_eq hinside]
    exact hread
  · cases hread

theorem writeBytes {address : Nat} {bs : List UInt8} {n : Memory} (hwrite : m.writeBytes address bs = (.ok (), n)) :
    ∃ n', m'.writeBytes address bs = (.ok (), n') ∧ Enlarged small large n n' := by
  obtain ⟨hinside, rfl⟩ := writeBytes_eq_ok_iff.mp hwrite
  exact ⟨_, writeBytes_eq_ok (h.room hinside), h.fill hinside⟩

theorem write {count address value : Nat} {n : Memory} (hwrite : m.write count address value = (.ok (), n)) :
    ∃ n', m'.write count address value = (.ok (), n') ∧ Enlarged small large n n' := h.writeBytes hwrite

/-! ### Records -/

theorem readDown {address count high value : Nat} (hread : Tribyte.readDown m address count high = .ok value) :
    Tribyte.readDown m' address count high = .ok value := by
  induction count generalizing high with
  | zero => exact hread
  | succ count ih =>
    rw [Tribyte.readDown] at hread ⊢
    split at hread
    · rename_i hbyte
      rw [h.read hbyte]
      exact ih hread
    · cases hread

theorem relocate_ok {address length delta : Nat} {n : Memory} (hok : relocate m address length delta = (.ok (), n)) :
    ∃ n', relocate m' address length delta = (.ok (), n') ∧ Enlarged small large n n' := by
  unfold relocate at hok ⊢
  split at hok
  · cases hok
  · rename_i value hread
    rw [h.readDown hread]
    dsimp only at hok ⊢
    split at hok
    · cases hok
    · rename_i hfits
      rw [if_neg hfits]
      split at hok
      · cases hok
      · rename_i hwrite
        cases hok
        obtain ⟨n', hwrite', hn⟩ := h.write hwrite
        exact ⟨n', by rw [hwrite'], hn⟩

theorem relocate_error {address length delta : Nat} {e : LoadError} {n : Memory}
    (herror : relocate m address length delta = (.error e, n)) (he : ¬e.isOfSize) :
    relocate m' address length delta = (.error e, m') := by
  unfold relocate at herror ⊢
  split at herror
  · cases herror
    exact absurd rfl he
  · rename_i value hread
    rw [h.readDown hread]
    dsimp only at herror ⊢
    split at herror
    · rename_i hover
      rw [if_pos hover]
      cases herror
      rfl
    · split at herror
      · cases herror
        exact absurd rfl he
      · cases herror

theorem place_ok {base : Nat} {r : Record} {n : Memory} (hok : place base m r = (.ok (), n)) :
    ∃ n', place base m' r = (.ok (), n') ∧ Enlarged small large n n' := by
  cases r with
  | text start payload =>
    simp only [place] at hok ⊢
    split at hok
    · cases hok
    · rename_i hwrite
      cases hok
      obtain ⟨n', hwrite', hn⟩ := h.writeBytes hwrite
      exact ⟨n', by rw [hwrite'], hn⟩
  | modification address length => exact h.relocate_ok hok
  | header | finish =>
    cases hok
    exact ⟨m', rfl, h⟩

theorem place_error {base : Nat} {r : Record} {e : LoadError} {n : Memory} (herror : place base m r = (.error e, n))
    (he : ¬e.isOfSize) : place base m' r = (.error e, m') := by
  cases r with
  | text start payload =>
    simp only [place] at herror
    split at herror
    · cases herror
      exact absurd rfl he
    · cases herror
  | modification address length => exact h.relocate_error herror he
  | header | finish => cases herror

end Memory.Enlarged

/-! ### Loading -/

theorem Placed.enlarged {base small large : Nat} {m n m' : Memory} {records : List Record}
    (hplaced : Placed base m records n) (h : Memory.Enlarged small large m m') :
    ∃ n', Placed base m' records n' ∧ Memory.Enlarged small large n n' := by
  induction hplaced generalizing m' with
  | nil => exact ⟨m', .nil, h⟩
  | cons hr hplace _ ih =>
    obtain ⟨p', hplace', hp⟩ := h.place_ok hplace
    obtain ⟨n', hrest, hn⟩ := ih hp
    exact ⟨n', .cons hr hplace' hrest, hn⟩

/-- A load that does not fail for want of room ends the same way with more of it. -/
theorem Ending.enlarged {base small large : Nat} {m n m' : Memory} {records : List Record}
    {result : Except LoadError Program} (hending : Ending base m records result n)
    (h : Memory.Enlarged small large m m') (hresult : ∀ e, result = .error e → ¬e.isOfSize) :
    ∃ n', Ending base m' records result n' ∧ Memory.Enlarged small large n n' := by
  cases hending with
  | empty => exact ⟨m', .empty, h⟩
  | missingHeader hr => exact ⟨m', .missingHeader hr, h⟩
  | tooLarge => exact absurd rfl (hresult _ rfl)
  | missingEnd hinside hplaced =>
    obtain ⟨n', hplaced', hn⟩ := hplaced.enlarged h
    exact ⟨n', .missingEnd (h.room hinside) hplaced', hn⟩
  | duplicateHeader hinside hplaced =>
    obtain ⟨n', hplaced', hn⟩ := hplaced.enlarged h
    exact ⟨n', .duplicateHeader (h.room hinside) hplaced', hn⟩
  | unplaced hinside hplaced hr hplace =>
    obtain ⟨n', hplaced', hn⟩ := hplaced.enlarged h
    exact ⟨n', .unplaced (h.room hinside) hplaced' hr (hn.place_error hplace (hresult _ rfl)), hn⟩
  | finished hinside hplaced =>
    obtain ⟨n', hplaced', hn⟩ := hplaced.enlarged h
    exact ⟨n', .finished (h.room hinside) hplaced', hn⟩

theorem loadImage_enlarged {small large : Nat} (hle : small ≤ large) {image : List UInt8} {base : Nat}
    {result : Except LoadError Program} {after : Memory}
    (hload : loadImage (.zeroed small) image base = (result, after))
    (hresult : ∀ e, result = .error e → ¬e.isOfSize) :
    ∃ after', loadImage (.zeroed large) image base = (result, after') ∧
      Memory.Enlarged small large after after' := by
  obtain ⟨after', hending, hafter⟩ :=
    (load_eq_iff.mp hload).enlarged (Memory.enlarged_zeroed hle) hresult
  exact ⟨after', hending.load_eq, hafter⟩

namespace Machine

/-! ### Steps -/

/-- The same machine with a larger memory. -/
structure Enlarged (small large : Nat) (m m' : Machine) : Prop where
  registers : m'.registers = m.registers
  console : m'.console = m.console
  memory : Memory.Enlarged small large m.memory m'.memory

namespace Enlarged

variable {small large : Nat} {m m' : Machine} (h : Enlarged small large m m')
include h

theorem withRegisters {r r' : Registers} (hr : r' = r) :
    Enlarged small large { m with registers := r } { m' with registers := r' } :=
  { h with registers := hr }

theorem setRegister (register : Register) (value : Nat) :
    Enlarged small large (m.setRegister register value) (m'.setRegister register value) :=
  h.withRegisters (by rw [h.registers])

theorem withAccumulator (value : Nat) :
    Enlarged small large (m.withAccumulator value) (m'.withAccumulator value) :=
  h.withRegisters (by rw [h.registers])

theorem compareWords (lhs rhs : Nat) :
    Enlarged small large (m.compareWords lhs rhs) (m'.compareWords lhs rhs) :=
  h.withRegisters (by rw [h.registers])

theorem follow (pc : Nat) (flow : Flow) : Enlarged small large (m.follow pc flow) (m'.follow pc flow) := by
  cases flow with
  | next | jump => exact h.setRegister _ _
  | halt => exact h

theorem operand {width : Width} {address value : Nat} (hok : m.operand width address = .ok value) :
    m'.operand width address = .ok value := by
  unfold Machine.operand at hok ⊢
  split at hok
  · rename_i hread
    rw [h.memory.read hread]
    exact hok
  · cases hok

theorem inside (hinside : m.registers.pc + Instruction.size ≤ m.memory.size) :
    m'.registers.pc + Instruction.size ≤ m'.memory.size := by
  rw [h.registers]
  exact h.memory.room hinside

/-- The bytes at the program counter are the same. -/
theorem decode?_eq (hinside : m.registers.pc + Instruction.size ≤ m.memory.size) :
    Instruction.decode? (m'.memory.bytes m'.registers.pc Instruction.size) =
      Instruction.decode? (m.memory.bytes m.registers.pc Instruction.size) := by
  rw [h.registers, h.memory.bytes_eq hinside]

theorem fetches {i : Instruction} (hi : m.Fetches i) : m'.Fetches i :=
  ⟨h.inside hi.inside, (h.decode?_eq hi.inside).trans hi.decoded⟩

theorem effectiveAddress (i : Instruction) : m'.effectiveAddress i = m.effectiveAddress i := by
  rw [Machine.effectiveAddress, Machine.effectiveAddress, h.registers]

/-- An effect that does not trap on the bus does the same in the larger memory. -/
theorem execute {e : Effect} {address : Nat}
    (hbus : ∀ cause, (m.execute e address).1 ≠ .error (.bus address cause)) :
    (m'.execute e address).1 = (m.execute e address).1 ∧
      Enlarged small large (m.execute e address).2 (m'.execute e address).2 := by
  cases e with
  | load register width =>
    obtain ⟨value, hoperand⟩ := m.exists_operand width address
      fun cause hcause => hbus cause (by simp only [Machine.execute, hcause])
    simp only [Machine.execute, hoperand, h.operand hoperand]
    exact ⟨trivial, h.setRegister _ _⟩
  | store register width =>
    rcases hwrite : m.memory.write width.bytes address (m.registers.get register) with ⟨cause | _, n⟩
    · exact absurd (by simp only [Machine.execute, hwrite]) (hbus cause)
    · obtain ⟨n', hwrite', hn⟩ := h.memory.write hwrite
      simp only [Machine.execute, h.registers, hwrite, hwrite']
      exact ⟨trivial, rfl, h.console, hn⟩
  | compare register =>
    obtain ⟨value, hoperand⟩ := m.exists_operand .word address
      fun cause hcause => hbus cause (by simp only [Machine.execute, hcause])
    simp only [Machine.execute, hoperand, h.operand hoperand, h.registers]
    exact ⟨trivial, h.compareWords _ _⟩
  | countIndex =>
    have hcounted := h.setRegister .x (m.registers.x + 1)
    obtain ⟨value, hoperand⟩ := (m.setRegister .x (m.registers.x + 1)).exists_operand .word address
      fun cause hcause => hbus cause (by simp only [Machine.execute, hcause])
    simp only [Machine.execute, h.registers, hoperand, hcounted.operand hoperand, hcounted.registers]
    exact ⟨trivial, hcounted.compareWords _ _⟩
  | add | subtract =>
    obtain ⟨value, hoperand⟩ := m.exists_operand .word address
      fun cause hcause => hbus cause (by simp only [Machine.execute, hcause])
    simp only [Machine.execute, hoperand, h.operand hoperand, h.registers]
    exact ⟨trivial, h.withAccumulator _⟩
  | jump | leave =>
    simp only [Machine.execute, h.registers]
    exact ⟨trivial, h⟩
  | call =>
    simp only [Machine.execute, h.registers]
    exact ⟨trivial, h.setRegister _ _⟩
  | receive =>
    simp only [Machine.execute, h.registers, h.console]
    split
    · exact ⟨rfl, h⟩
    · exact ⟨rfl, h⟩
    · exact ⟨rfl, (h.withAccumulator _).registers, rfl, h.memory⟩
  | send =>
    simp only [Machine.execute, h.registers, h.console]
    split
    · exact ⟨rfl, h⟩
    · exact ⟨rfl, rfl, rfl, h.memory⟩
  | halt | idle => exact ⟨rfl, h⟩

theorem step (hbus : ∀ address cause, m.step.1 ≠ .error (.bus address cause)) :
    m'.step.1 = m.step.1 ∧ Enlarged small large m.step.2 m'.step.2 := by
  by_cases hinside : m.registers.pc + Instruction.size ≤ m.memory.size
  · cases hdecode : Instruction.decode? (m.memory.bytes m.registers.pc Instruction.size) with
    | none =>
      have hcode : m'.memory.byte m.registers.pc = m.memory.byte m.registers.pc := by
        rw [h.memory.size] at hinside
        exact h.memory.agree _ (Nat.lt_of_lt_of_le (Nat.lt_add_of_pos_right (by decide)) hinside)
      rw [step_of_unknown hinside hdecode, step_of_unknown (h.inside hinside) ((h.decode?_eq hinside).trans hdecode),
        h.registers, hcode]
      exact ⟨rfl, h⟩
    | some i =>
      have hi : m.Fetches i := ⟨hinside, hdecode⟩
      rw [step_fst hi] at hbus
      obtain ⟨hresult, hrel⟩ := h.execute (hbus (m.effectiveAddress i))
      rw [step_fst hi, step_snd hi, step_fst (h.fetches hi), step_snd (h.fetches hi), h.effectiveAddress, hresult,
        h.registers]
      refine ⟨rfl, ?_⟩
      split
      · exact hrel
      · exact hrel.follow _ _
  · obtain ⟨address, cause, hstep⟩ := step_of_outside hinside
    rw [hstep] at hbus
    exact absurd rfl (hbus address cause)

end Enlarged

theorem lockstep_enlarged (small large : Nat) :
    Lockstep (Enlarged small large) (fun t => ∃ address cause, t = .bus address cause) where
  registers := fun h => h.registers
  step := by
    intro m n h htrap
    exact h.step fun address cause hbus => htrap _ hbus ⟨address, cause, rfl⟩

end Machine

theorem Program.start_enlarged (program : Program) (console : Console) {small large : Nat} {m m' : Memory}
    (h : Memory.Enlarged small large m m') :
    Machine.Enlarged small large (program.start m console) (program.start m' console) where
  registers := rfl
  console := rfl
  memory := h

/-- A program that fits its memory behaves the same in a larger one. A load that does not fail for want of room has the
same result there, and leaves the same bytes with nothing but zeros behind them. A loaded program takes the same steps,
as long as none traps on the bus: a run that ends has the same result, registers and console and leaves the same bytes,
and one that does not end does not end there either. -/
theorem enlarging_keeps_programs {small large : Nat} (hle : small ≤ large) (image : List UInt8) (base : Nat)
    (console : Console) :
    (∀ e after, loadImage (.zeroed small) image base = (.error e, after) → ¬e.isOfSize →
      ∃ after', loadImage (.zeroed large) image base = (.error e, after') ∧
        Memory.Enlarged small large after after') ∧
    ∀ program after, loadImage (.zeroed small) image base = (.ok program, after) →
      ∃ after', loadImage (.zeroed large) image base = (.ok program, after') ∧
        Memory.Enlarged small large after after' ∧
        (∀ k, (∀ address cause, (program.runFor after console k).1 ≠ some (.error (.bus address cause))) →
          (program.runFor after' console k).1 = (program.runFor after console k).1 ∧
          Machine.Enlarged small large (program.runFor after console k).2 (program.runFor after' console k).2) ∧
        ∀ limit, (limit ≠ none ∨ ∃ k, (program.runFor after console k).1 ≠ none) →
          (∀ address cause, (program.run after console limit).1 ≠ .error (.bus address cause)) →
          (program.run after' console limit).1 = (program.run after console limit).1 ∧
          Machine.Enlarged small large (program.run after console limit).2 (program.run after' console limit).2 := by
  have L := Machine.lockstep_enlarged small large
  refine ⟨?_, ?_⟩
  · intro e after hload hsize
    exact loadImage_enlarged hle hload fun _ he => Except.error.inj he ▸ hsize
  · intro program after hload
    obtain ⟨after', hload', hafter⟩ := loadImage_enlarged hle hload (by simp)
    have hstart := program.start_enlarged console hafter
    refine ⟨after', hload', hafter, ?_, ?_⟩
    · intro k hbus
      apply L.runFor hstart k
      rintro _ ht ⟨address, cause, rfl⟩
      exact hbus address cause ht
    · intro limit hends hbus
      apply L.run hstart hends
      rintro _ ht ⟨address, cause, rfl⟩
      exact hbus address cause ht

/-- The image of a program that copies its first byte behind its last instruction, and halts. -/
def copyingImage : List UInt8 :=
  [0, 80, 0, 0, 0, 0, 0, 0, 0, 0, 10, 0, 0, 1, 0, 0, 0, 9, 1, 0, 0, 6, 9, 0, 22, 0, 0, 2, 0, 0, 0]

/-- That program fills a memory of ten bytes, and in the whole address space it writes the same byte and no other. -/
theorem copying_program_enlarged :
    ∃ program after after',
      loadImage (.zeroed 10) copyingImage 0 = (.ok program, after) ∧
      loadImage (.zeroed Memory.addressSpace) copyingImage 0 = (.ok program, after') ∧
      (program.run after' {} (some 3)).1 = .ok .halted ∧
      (program.run after' {} (some 3)).2.memory.byte 9 = 1 ∧
      ∀ x, 10 ≤ x → (program.run after' {} (some 3)).2.memory.byte x = 0 := by
  have hresult : (loadImage (.zeroed 10) copyingImage 0).1 = .ok ⟨"P", 0, 0, 0, 10⟩ := by decide +kernel
  have hload : loadImage (.zeroed 10) copyingImage 0 = (.ok ⟨"P", 0, 0, 0, 10⟩, _) := Prod.ext hresult rfl
  have hspace : 10 ≤ Memory.addressSpace := by decide
  obtain ⟨-, hloaded⟩ := enlarging_keeps_programs hspace copyingImage 0 {}
  obtain ⟨after', hload', -, -, hrun⟩ := hloaded _ _ hload
  have hhalted : (Program.run ⟨"P", 0, 0, 0, 10⟩ (loadImage (.zeroed 10) copyingImage 0).2 {} (some 3)).1 =
      .ok .halted := by decide +kernel
  have hbyte : (Program.run ⟨"P", 0, 0, 0, 10⟩ (loadImage (.zeroed 10) copyingImage 0).2 {} (some 3)).2.memory.byte 9 =
      1 := by decide +kernel
  obtain ⟨hsame, henlarged⟩ := hrun (some 3) (.inl (by simp)) (by simp [hhalted])
  refine ⟨_, _, after', hload, hload', hsame.trans hhalted, ?_, henlarged.memory.clear⟩
  rw [henlarged.memory.agree 9 (by decide), hbyte]

end Tribyte
