import Mathlib.Control.Monad.Basic
import Tribyte.Proofs.Machine.Input
import Tribyte.Proofs.Machine.Registers

/-! What one step changes, and what it leaves alone.

`Performs` has a rule for each effect, with the machine that it leaves; an effect that does not trap follows its rule
(`performs_of_execute`), and a rule that applies is followed (`Performs.execute_eq`). What changes depends on the opcode
alone: memory at the effective address for the stores (`Opcode.stored?`), one or two registers for some others
(`Opcode.changed`), the console for RD and WD, and the program counter as the flow says. `step_frame` puts this together
for every step that does not trap, with the instruction and its effective address read off the bytes. -/
namespace Tribyte

/-! ### What opcodes touch -/

namespace Opcode

/-- The register that an opcode stores, and how many of its bytes. -/
def stored? : Opcode → Option (Register × Nat)
  | sta => some (.a, 3)
  | stch => some (.a, 1)
  | stx => some (.x, 3)
  | stl => some (.l, 3)
  | sts => some (.s, 3)
  | _ => none

/-- The register that an opcode loads, and from how many bytes. -/
def loaded? : Opcode → Option (Register × Nat)
  | lda => some (.a, 3)
  | ldch => some (.a, 1)
  | ldx => some (.x, 3)
  | ldl => some (.l, 3)
  | lds => some (.s, 3)
  | _ => none

/-- The registers that an opcode may change, apart from the program counter. -/
def changed : Opcode → List Register
  | lda | ldch | add | sub | rd => [.a]
  | ldx => [.x]
  | ldl | jsub => [.l]
  | lds => [.s]
  | comp => [.sw]
  | tix => [.x, .sw]
  | _ => []

end Opcode

/-- The registers that an effect may change. -/
def Effect.changed : Effect → List Register
  | load register _ => [register]
  | compare _ => [.sw]
  | countIndex => [.x, .sw]
  | add | subtract | receive => [.a]
  | call => [.l]
  | store _ _ | jump _ | leave | send | halt | idle => []

namespace Opcode

variable {op : Opcode}

theorem changed_effect (op : Opcode) : op.effect.changed = op.changed := by cases op <;> rfl

theorem effect_of_stored? {register : Register} {count : Nat} (h : op.stored? = some (register, count)) :
    ∃ width, op.effect = .store register width ∧ width.bytes = count := by
  cases op <;> cases h
  case stch => exact ⟨.byte, rfl, rfl⟩
  all_goals exact ⟨.word, rfl, rfl⟩

theorem effect_ne_store (h : op.stored? = none) (register : Register) (width : Width) :
    op.effect ≠ .store register width := by
  intro heffect
  cases op <;> cases heffect <;> cases h

theorem effect_of_loaded? {register : Register} {count : Nat} (h : op.loaded? = some (register, count)) :
    register ≠ .pc ∧ ∃ width, op.effect = .load register width ∧ width.bytes = count := by
  cases op <;> cases h
  case ldch => exact ⟨by decide, .byte, rfl, rfl⟩
  all_goals exact ⟨by decide, .word, rfl, rfl⟩

/-- No two opcodes have the same effect. -/
theorem effect_eq_iff (other : Opcode) : op.effect = other.effect ↔ op = other := by
  have hall : ∀ a ∈ all, ∀ b ∈ all, a.effect = b.effect → a = b := by decide +kernel
  exact ⟨hall op (mem_all op) other (mem_all other), congrArg effect⟩

end Opcode

/-- The instruction that three bytes spell: a code, and a number of two bytes, low byte first, that holds an address
of 15 bits under the index flag. -/
structure Instruction.Spelled (code low high : UInt8) (i : Instruction) : Prop where
  code : i.opcode.code = code
  address : i.address = (low.toNat + 256 * high.toNat) % 0x8000
  indexed : i.indexed ↔ 0x8000 ≤ low.toNat + 256 * high.toNat

theorem Instruction.spelled_of_decode? {code low high : UInt8} {i : Instruction}
    (h : decode? [code, low, high] = some i) : i.Spelled code low high := by
  have hfield : LittleEndian.decode [low, high] = low.toNat + 256 * high.toNat := by simp [LittleEndian.decode]
  obtain ⟨opcode, hcode, rfl⟩ := Option.map_eq_some_iff.mp h
  exact {
    code := Opcode.code_of_ofCode? hcode
    address := by rw [hfield]; rfl
    indexed := by simp [hfield, indexFlag] }

theorem Instruction.Spelled.address_lt {code low high : UInt8} {i : Instruction} (h : i.Spelled code low high) :
    i.address < 0x8000 := by
  rw [h.address]
  exact Nat.mod_lt _ (by decide)

namespace Machine

/-! ### Effects, by rules -/

/-- The word at an address. -/
def wordAt (m : Machine) (address : Nat) : Nat := LittleEndian.decode (m.memory.bytes address Width.word.bytes)

/-- What an effect does with its operand at `address`, where it leads and the machine that it leaves. -/
inductive Performs (m : Machine) (address : Nat) : Effect → Flow → Machine → Prop where
  | load {register : Register} {width : Width} (hinside : address + width.bytes ≤ m.memory.size) :
    Performs m address (.load register width) .next
      (m.setRegister register (LittleEndian.decode (m.memory.bytes address width.bytes)))
  | store {register : Register} {width : Width} (hinside : address + width.bytes ≤ m.memory.size) :
    Performs m address (.store register width) .next
      { m with memory := m.memory.fill address (LittleEndian.encode width.bytes (m.registers.get register)) }
  | compare {register : Register} (hinside : address + Width.word.bytes ≤ m.memory.size) :
    Performs m address (.compare register) .next (m.compareWords (m.registers.get register) (m.wordAt address))
  | countIndex (hinside : address + Width.word.bytes ≤ m.memory.size) :
    Performs m address .countIndex .next
      ((m.setRegister .x (m.registers.x + 1)).compareWords (Word.wrap (m.registers.x + 1)) (m.wordAt address))
  | add (hinside : address + Width.word.bytes ≤ m.memory.size) :
    Performs m address .add .next
      (m.withAccumulator (Word.ofSigned (Word.signed m.registers.a + Word.signed (m.wordAt address))))
  | subtract (hinside : address + Width.word.bytes ≤ m.memory.size) :
    Performs m address .subtract .next
      (m.withAccumulator (Word.ofSigned (Word.signed m.registers.a - Word.signed (m.wordAt address))))
  | taken {condition : Condition} (h : condition.holds m.registers.outcome?) :
    Performs m address (.jump condition) (.jump address) m
  | passed {condition : Condition} (h : condition.holds m.registers.outcome? = false) :
    Performs m address (.jump condition) .next m
  | call : Performs m address .call (.jump address) (m.setRegister .l (m.registers.pc + Instruction.size))
  | returned (h : m.registers.l = 0) : Performs m address .leave (.halt .returned) m
  | leave (h : m.registers.l ≠ 0) : Performs m address .leave (.jump m.registers.l) m
  | receive {b : UInt8} {rest : List UInt8} (h : m.console.input = b :: rest) :
    Performs m address .receive .next
      { m.withAccumulator b.toNat with console := { m.console with input := rest } }
  | send : Performs m address .send .next
      { m with console := { m.console with output := m.console.output.push m.registers.a.toUInt8 } }
  | halt : Performs m address .halt (.halt .halted) m
  | idle : Performs m address .idle .next m

theorem operand_eq_ok {m : Machine} {width : Width} {address value : Nat} (h : m.operand width address = .ok value) :
    address + width.bytes ≤ m.memory.size ∧ value = LittleEndian.decode (m.memory.bytes address width.bytes) := by
  unfold operand Memory.read at h
  by_cases hinside : address + width.bytes ≤ m.memory.size
  · rw [if_pos hinside] at h
    exact ⟨hinside, (Except.ok.inj h).symm⟩
  · rw [if_neg hinside] at h
    cases h

theorem performs_of_execute {m m' : Machine} {e : Effect} {address : Nat} {flow : Flow}
    (h : m.execute e address = (.ok flow, m')) : Performs m address e flow m' := by
  cases e with
  | load | compare | add | subtract =>
    simp only [execute] at h
    split at h
    · cases h
    · rename_i hoperand
      obtain ⟨hinside, rfl⟩ := operand_eq_ok hoperand
      cases h
      constructor
      exact hinside
  | store =>
    simp only [execute] at h
    split at h
    · cases h
    · rename_i hwrite
      obtain ⟨hinside, rfl⟩ := Memory.writeBytes_eq_ok_iff.mp hwrite
      rw [LittleEndian.length_encode] at hinside
      cases h
      exact .store hinside
  | countIndex =>
    simp only [execute] at h
    split at h
    · cases h
    · rename_i hoperand
      obtain ⟨hinside, rfl⟩ := operand_eq_ok hoperand
      cases h
      exact .countIndex hinside
  | jump condition =>
    cases hholds : condition.holds m.registers.outcome? with
    | true =>
      simp only [execute, hholds, if_true] at h
      cases h
      exact .taken hholds
    | false =>
      simp only [execute, hholds] at h
      cases h
      exact .passed hholds
  | call =>
    cases h
    exact .call
  | leave =>
    by_cases hl : m.registers.l = 0
    · simp only [execute, hl, if_true] at h
      cases h
      exact .returned hl
    · simp only [execute, hl, if_false] at h
      cases h
      exact .leave hl
  | receive =>
    simp only [execute] at h
    split at h
    · cases h
    · cases h
    · rename_i hinput
      cases h
      exact .receive hinput
  | send =>
    simp only [execute] at h
    split at h
    · cases h
    · cases h
      exact .send
  | halt =>
    cases h
    exact .halt
  | idle =>
    cases h
    exact .idle

theorem operand_of_inside {m : Machine} {width : Width} {address : Nat} (h : address + width.bytes ≤ m.memory.size) :
    m.operand width address = .ok (LittleEndian.decode (m.memory.bytes address width.bytes)) := by
  rw [operand, Memory.read_eq_ok h]

/-- An effect does what its rule says, unless the console it needs is at fault. -/
theorem Performs.execute_eq {m m' : Machine} {e : Effect} {address : Nat} {flow : Flow}
    (h : Performs m address e flow m') (hread : e = .receive → m.console.readFault = none)
    (hwrite : e = .send → m.console.writeFault = none) : m.execute e address = (.ok flow, m') := by
  cases h with
  | load hinside => simp only [execute, operand_of_inside hinside]
  | compare hinside | add hinside | subtract hinside =>
    simp only [execute, operand_of_inside hinside]
    rfl
  | store hinside => simp only [execute, Memory.write_eq_ok hinside]
  | countIndex hinside =>
    have hoperand := operand_of_inside (m := m.setRegister .x (m.registers.x + 1)) hinside
    simp only [execute, hoperand]
    rfl
  | taken h | passed h | returned h | leave h => simp [execute, h]
  | receive h => simp only [execute, hread rfl, h]
  | send => simp only [execute, hwrite rfl]
  | call | halt | idle => rfl

/-! ### What is kept -/

theorem get_setRegister_of_ne (m : Machine) {register other : Register} (h : other ≠ register) (value : Nat) :
    (m.setRegister register value).registers.get other = m.registers.get other := by
  rw [setRegister, Registers.get_set, if_neg h]

theorem get_withAccumulator_of_ne (m : Machine) {register : Register} (h : register ≠ .a) (value : Nat) :
    (m.withAccumulator value).registers.get register = m.registers.get register := by
  cases register with
  | a => exact absurd rfl h
  | x | l | pc | sw | s => rfl

-- Over any status word: over that of a comparison, `rfl` would evaluate it.
theorem get_withStatus_of_ne (r : Registers) {register : Register} (h : register ≠ .sw) (status : Nat) :
    ({ r with sw := status } : Registers).get register = r.get register := by
  cases register with
  | sw => exact absurd rfl h
  | a | x | l | pc | s => rfl

theorem get_compareWords_of_ne (m : Machine) {register : Register} (h : register ≠ .sw) (lhs rhs : Nat) :
    (m.compareWords lhs rhs).registers.get register = m.registers.get register :=
  get_withStatus_of_ne m.registers h _

namespace Performs

variable {m m' : Machine} {address : Nat} {e : Effect} {flow : Flow} (h : Performs m address e flow m')
include h

theorem memory_eq (hstore : ∀ register width, e ≠ .store register width) : m'.memory = m.memory := by
  cases h with
  | store => exact absurd rfl (hstore _ _)
  | load | call => exact memory_setRegister ..
  | add | subtract => exact memory_withAccumulator ..
  | compare => exact memory_compareWords ..
  | countIndex => rw [memory_compareWords, memory_setRegister]
  | taken | passed | returned | leave | receive | send | halt | idle => rfl

theorem get_eq {register : Register} (hkept : register ∉ e.changed) :
    m'.registers.get register = m.registers.get register := by
  cases h with
  | load | call => exact m.get_setRegister_of_ne (List.ne_of_not_mem_cons hkept) _
  | add | subtract | receive => exact m.get_withAccumulator_of_ne (List.ne_of_not_mem_cons hkept) _
  | compare => exact m.get_compareWords_of_ne (List.ne_of_not_mem_cons hkept) _ _
  | countIndex =>
    have hsw := List.ne_of_not_mem_cons (List.not_mem_of_not_mem_cons hkept)
    rw [get_compareWords_of_ne _ hsw, get_setRegister_of_ne _ (List.ne_of_not_mem_cons hkept)]
  | store | taken | passed | returned | leave | send | halt | idle => rfl

theorem console_eq (hreceive : e ≠ .receive) (hsend : e ≠ .send) : m'.console = m.console := by
  cases h with
  | receive => exact absurd rfl hreceive
  | send => exact absurd rfl hsend
  | load | call => exact console_setRegister ..
  | add | subtract => exact console_withAccumulator ..
  | compare => exact console_compareWords ..
  | countIndex => rw [console_compareWords, console_setRegister]
  | store | taken | passed | returned | leave | halt | idle => rfl

theorem halts_iff {reason : Halt} :
    flow = .halt reason ↔ e = .halt ∧ reason = .halted ∨ e = .leave ∧ m.registers.l = 0 ∧ reason = .returned := by
  cases h with
  | halt => simp [eq_comm]
  | returned hl => simp [hl, eq_comm]
  | leave hl => simp [hl]
  | _ => simp

theorem eq_of_halt {reason : Halt} (hflow : flow = .halt reason) : m' = m := by
  cases h with
  | halt | returned => rfl
  | _ => cases hflow

theorem target_eq {target : Nat} (hflow : flow = .jump target) :
    target = if e = .leave then m.registers.l else address := by
  cases h with
  | taken | call | leave =>
    cases hflow
    rfl
  | _ => cases hflow

end Performs

/-! ### One step -/

theorem memory_follow (m : Machine) (pc : Nat) (flow : Flow) : (m.follow pc flow).memory = m.memory := by
  cases flow <;> rfl

theorem get_follow (m : Machine) (pc : Nat) (flow : Flow) {register : Register} (h : register ≠ .pc) :
    (m.follow pc flow).registers.get register = m.registers.get register := by
  cases flow with
  | next | jump => exact m.get_setRegister_of_ne h _
  | halt => rfl

/-- What a step makes of a machine where it executes `i` with its operand at `ea` and goes on as `flow` says. -/
structure Stepped (m : Machine) (i : Instruction) (ea : Nat) (flow : Flow) (n : Machine) : Prop where
  stored : ∀ register count, i.opcode.stored? = some (register, count) →
    ea + count ≤ m.memory.size ∧
      m.memory.Laid n.memory [⟨ea, LittleEndian.encode count (m.registers.get register)⟩]
  memory : i.opcode.stored? = none → n.memory = m.memory
  kept : ∀ register, register ≠ .pc → register ∉ i.opcode.changed →
    n.registers.get register = m.registers.get register
  loaded : ∀ register count, i.opcode.loaded? = some (register, count) →
    n.registers.get register = LittleEndian.decode (m.memory.bytes ea count)
  linked : i.opcode = .jsub → n.registers.l = (m.registers.pc + 3) % 0x1000000
  received : i.opcode = .rd → ∃ b rest, m.console.input = b :: rest ∧ n.registers.a = b.toNat ∧
    n.console = { m.console with input := rest }
  sent : i.opcode = .wd →
    n.console = { m.console with output := m.console.output.push m.registers.a.toUInt8 }
  console : i.opcode ≠ .rd → i.opcode ≠ .wd → n.console = m.console
  next : flow = .next → n.registers.pc = (m.registers.pc + 3) % 0x1000000
  jump : ∀ target, flow = .jump target → n.registers.pc = target % 0x1000000 ∧
    target = if i.opcode = .rsub then m.registers.l else ea
  halt : ∀ reason, flow = .halt reason → n.registers.pc = m.registers.pc
  halts : ∀ reason, flow = .halt reason ↔
    i.opcode = .hlt ∧ reason = .halted ∨ i.opcode = .rsub ∧ m.registers.l = 0 ∧ reason = .returned

/-- What a load reads is a word. -/
theorem decode_bytes_lt (m : Memory) (address : Nat) (width : Width) :
    LittleEndian.decode (m.bytes address width.bytes) < Word.modulus := by
  have hlt := LittleEndian.decode_lt (m.bytes address width.bytes)
  rw [Memory.length_bytes] at hlt
  refine Nat.lt_of_lt_of_le hlt ?_
  cases width <;> decide

theorem Performs.stepped {m m' : Machine} {i : Instruction} {flow : Flow}
    (h : Performs m (m.effectiveAddress i) i.opcode.effect flow m') :
    m.Stepped i (m.effectiveAddress i) flow (m'.follow m.registers.pc flow) where
  stored := by
    intro register count hstored
    obtain ⟨width, heffect, rfl⟩ := Opcode.effect_of_stored? hstored
    rw [heffect] at h
    cases h with
    | store hinside => exact ⟨hinside, Memory.laid_fill ..⟩
  memory := by
    intro hstored
    rw [memory_follow, h.memory_eq (Opcode.effect_ne_store hstored)]
  kept := by
    intro register hpc hkept
    rw [get_follow _ _ _ hpc, h.get_eq (by rwa [Opcode.changed_effect])]
  loaded := by
    intro register count hloaded
    obtain ⟨hpc, width, heffect, rfl⟩ := Opcode.effect_of_loaded? hloaded
    rw [heffect] at h
    cases h with
    | load =>
      rw [get_follow _ _ _ hpc, setRegister, Registers.get_set, if_pos rfl, Word.wrap_of_lt (decode_bytes_lt ..)]
  linked := by
    intro hop
    rw [hop] at h
    cases h with
    | call => rfl
  received := by
    intro hop
    rw [hop] at h
    cases h with
    | @receive b rest hinput => exact ⟨b, rest, hinput, rfl, rfl⟩
  sent := by
    intro hop
    rw [hop] at h
    cases h with
    | send => rfl
  console := by
    intro hrd hwd
    rw [console_follow]
    exact h.console_eq (mt (Opcode.effect_eq_iff .rd).mp hrd) (mt (Opcode.effect_eq_iff .wd).mp hwd)
  next := by
    rintro rfl
    rfl
  jump := by
    rintro target rfl
    have hleave : i.opcode.effect = .leave ↔ i.opcode = .rsub := Opcode.effect_eq_iff .rsub
    refine ⟨rfl, (h.target_eq rfl).trans ?_⟩
    simp only [hleave]
  halt := by
    rintro reason rfl
    rw [h.eq_of_halt rfl]
    rfl
  halts := by
    have hhalt : i.opcode.effect = .halt ↔ i.opcode = .hlt := Opcode.effect_eq_iff .hlt
    have hleave : i.opcode.effect = .leave ↔ i.opcode = .rsub := Opcode.effect_eq_iff .rsub
    intro reason
    rw [h.halts_iff, hhalt, hleave]

/-- Every step that does not trap executes the instruction that the three bytes at the program counter spell. Its operand
is at the address in it, to which an indexed one adds the index register modulo `2 ^ 24`. Memory changes only for
stores, and only where they store. Besides the program counter only the registers of the opcode change. The console
gives one byte to RD and takes one from WD. The program counter goes on, jumps or stays as the flow says, and only HLT
and an RSUB without a caller halt. -/
theorem step_frame {m n : Machine} {flow : Flow} (h : m.step = (.ok flow, n)) :
    ∃ i ea, m.Fetches i ∧
      i.Spelled (m.memory.byte m.registers.pc) (m.memory.byte (m.registers.pc + 1))
        (m.memory.byte (m.registers.pc + 2)) ∧
      i.address < 0x8000 ∧
      ea = (if i.indexed then (i.address + m.registers.x) % 0x1000000 else i.address) ∧
      m.Stepped i ea flow n := by
  obtain ⟨i, m', hi, hexecute, rfl⟩ := step_eq_ok h
  have hspelled := Instruction.spelled_of_decode? hi.decoded
  exact ⟨i, m.effectiveAddress i, hi, hspelled, hspelled.address_lt, rfl, (performs_of_execute hexecute).stepped⟩

/-- An indexed STX of its own address field. The last byte that it stores is the code of LDA, whose field follows. -/
def selfStore : Machine :=
  { registers := { x := 1, l := 7, pc := 6 }, memory := (Memory.zeroed 16).fill 6 [0x07, 6, 0x80, 0xFF, 8, 0] }

/-- The first is executed as it was fetched, and the second as the first has left it: one with the index register added
to its address, the other without. Memory behind what is stored goes on as before. -/
theorem self_store_steps :
    ∃ n n', selfStore.step = (.ok .next, n) ∧ n.memory.bytes 7 3 = [1, 0, 0] ∧ n.memory.byte 10 = 8 ∧
      n.registers.pc = 9 ∧ n.registers.l = 7 ∧ n.console = selfStore.console ∧
      n.step = (.ok .next, n') ∧ n'.registers.a = 0x080000 ∧ n'.registers.x = 1 ∧ n'.memory = n.memory := by
  have hflow : selfStore.step.1 = .ok .next := by decide +kernel
  have hflow' : selfStore.step.2.step.1 = .ok .next := by decide +kernel
  have hstep : selfStore.step = (.ok .next, selfStore.step.2) := Prod.ext hflow rfl
  have hstep' : selfStore.step.2.step = (.ok .next, selfStore.step.2.step.2) := Prod.ext hflow' rfl
  obtain ⟨i, _, hi, -, -, rfl, hstored⟩ := step_frame hstep
  obtain rfl : i = ⟨.stx, true, 6⟩ := Option.some.inj (hi.decoded.symm.trans (by decide +kernel))
  obtain ⟨i, _, hi, -, -, rfl, hloaded⟩ := step_frame hstep'
  obtain rfl : i = ⟨.lda, false, 8⟩ := Option.some.inj (hi.decoded.symm.trans (by decide +kernel))
  obtain ⟨-, hlaid⟩ := hstored.stored .x 3 rfl
  refine ⟨_, _, hstep, hlaid.held _ (List.mem_singleton_self _), ?_, hstored.next rfl, ?_, ?_, hstep', ?_, ?_, ?_⟩
  · refine (hlaid.kept 10 ?_).trans (by decide +kernel)
    intro s hs
    rw [List.mem_singleton.mp hs]
    exact fun hcovers => absurd hcovers.2 (by decide)
  · exact hstored.kept .l (by decide) (by decide)
  · exact hstored.console (by decide) (by decide)
  · exact (hloaded.loaded .a 3 rfl).trans (by decide +kernel)
  · exact (hloaded.kept .x (by decide) (by decide)).trans (hstored.kept .x (by decide) (by decide))
  · exact hloaded.memory rfl

end Machine

end Tribyte
