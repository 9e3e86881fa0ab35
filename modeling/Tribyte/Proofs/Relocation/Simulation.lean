import Tribyte.Proofs.Loading.Placement
import Tribyte.Proofs.Machine.Steps

/-! A program and its copy at another base, side by side.

`Mirrors` relates a machine that runs a program loaded at zero to one that runs it at `base`: what does not
hold an address is the same in both, and what does is larger by the base. As long as the program keeps to
itself (`Confined`), a step keeps the two machines related. -/
namespace Tribyte

/-! ### Programs that keep to themselves -/

def Statement.isInstruction (s : Statement) : Bool :=
  match s.operation with
  | .opcode _ => true
  | .directive _ => false

/-- An instruction that does not move the linkage register to or from memory. -/
def Statement.isMovable (s : Statement) : Bool :=
  match s.operation with
  | .opcode op => op ≠ .ldl ∧ op ≠ .stl
  | .directive _ => false

/-- `count` bytes inside the program, apart from its instructions. -/
def Outline.IsData (o : Outline) (length address count : Nat) : Prop :=
  o.start ≤ address ∧ address + count ≤ o.start + length ∧
    ∀ s ∈ o.body, s.isInstruction → address + count ≤ s.location ∨ s.location + s.size ≤ address

instance (o : Outline) (length address count : Nat) : Decidable (o.IsData length address count) :=
  inferInstanceAs (Decidable (_ ∧ _ ∧ _))

/-- How much of memory an effect reads or writes. -/
def Effect.operandWidth? : Effect → Option Width
  | .load _ width | .store _ width => some width
  | .compare _ | .countIndex | .add | .subtract => some .word
  | .jump _ | .call | .leave | .receive | .send | .halt | .idle => none

namespace Machine

/-- The address and size of the operand in memory that the next instruction uses. -/
def access? (m : Machine) : Option (Nat × Nat) :=
  (Instruction.decode? (m.memory.bytes m.registers.pc Instruction.size)).bind fun i =>
    i.opcode.effect.operandWidth?.map fun width => (m.effectiveAddress i, width.bytes)

/-- The next instruction is a statement of the program, and its operand is data of the program. -/
def Confined (o : Outline) (length : Nat) (m : Machine) : Prop :=
  (∃ s ∈ o.body, s.location = m.registers.pc ∧ s.isMovable) ∧
    ∀ access ∈ m.access?, o.IsData length access.1 access.2

instance (o : Outline) (length : Nat) (m : Machine) : Decidable (m.Confined o length) :=
  inferInstanceAs (Decidable (_ ∧ _))

/-- The statement of the next instruction lies inside the program. -/
theorem Confined.statement {l : Layout} {o : Outline} {m : Machine} (hout : l.Outlined o)
    (h : m.Confined o l.length) :
    ∃ s ∈ o.body, ∃ op, s.operation = .opcode op ∧ op ≠ .ldl ∧ op ≠ .stl ∧ s.location = m.registers.pc ∧
      m.registers.pc + Instruction.size ≤ o.start + l.length := by
  obtain ⟨⟨s, hs, hlocation, hmovable⟩, -⟩ := h
  unfold Statement.isMovable at hmovable
  split at hmovable
  · rename_i op hoperation
    obtain ⟨hldl, hstl⟩ := of_decide_eq_true hmovable
    have hsuits := (hout.wellFormed hs).suits
    rw [hoperation] at hsuits
    obtain ⟨symbol, indexed, hpayload, -⟩ := hsuits.opcode
    have hrange := (hout.mem_range hs).2
    rw [Statement.size, hpayload, Payload.size, hlocation] at hrange
    exact ⟨s, hs, op, hoperation, hldl, hstl, hlocation, hrange⟩
  · cases hmovable

/-- The operand of the next instruction is data. -/
theorem Confined.isData {o : Outline} {length : Nat} {m : Machine} (h : m.Confined o length) {i : Instruction}
    (hi : m.Fetches i) {width : Width} (hwidth : i.opcode.effect.operandWidth? = some width) :
    o.IsData length (m.effectiveAddress i) width.bytes := by
  refine h.2 (m.effectiveAddress i, width.bytes) ?_
  rw [access?, hi.decoded, Option.bind_some, hwidth]
  rfl

/-! ### The relation -/

/-- `m'` is `m` as far as a program can tell that has moved by `base`. -/
structure Moved (o : Outline) (length base : Nat) (m m' : Machine) : Prop where
  a : m'.registers.a = m.registers.a
  x : m'.registers.x = m.registers.x
  s : m'.registers.s = m.registers.s
  sw : m'.registers.sw = m.registers.sw
  pc : m'.registers.pc = Word.wrap (base + m.registers.pc)
  link : m.registers.l = 0 ∧ m'.registers.l = 0 ∨ m.registers.l ≠ 0 ∧ m'.registers.l = base + m.registers.l
  console : m'.console = m.console
  data : ∀ address, o.IsData length address 1 → m'.memory.byte (base + address) = m.memory.byte address

end Machine

/-- The instructions of a program loaded at `base` are in memory. -/
def Layout.CodeIn (l : Layout) (o : Outline) (base : Nat) (m : Memory) : Prop :=
  ∀ s ∈ o.body, ∀ op, s.operation = .opcode op → ∃ symbol indexed address,
    s.payload = .instruction symbol indexed ∧ l.symbols.operandAddress? base symbol = some address ∧
    Instruction.decode? (m.bytes (base + s.location) Instruction.size) = some ⟨op, indexed, address⟩

/-- Two machines that run one program, loaded at zero and at `base`. -/
structure Mirrors (l : Layout) (o : Outline) (base : Nat) (m m' : Machine) : Prop
    extends Machine.Moved o l.length base m m' where
  code : l.CodeIn o 0 m.memory
  code' : l.CodeIn o base m'.memory
  room : o.start + l.length ≤ m.memory.size
  room' : base + o.start + l.length ≤ m'.memory.size

/-- Where control goes, in a program that has moved. -/
inductive Flow.Moved (base : Nat) : Flow → Flow → Prop
  | next : Flow.Moved base .next .next
  | jump {target target' : Nat} (h : Word.wrap target' = Word.wrap (base + target)) :
      Flow.Moved base (.jump target) (.jump target')
  | halt (reason : Halt) : Flow.Moved base (.halt reason) (.halt reason)

/-- The same trap in a program that has moved. -/
def Trap.moved (base : Nat) : Trap → Trap
  | .unknownOpcode pc code => .unknownOpcode (base + pc) code
  | .noInput pc => .noInput (base + pc)
  | .bus address cause => .bus (base + address) { cause with address := base + cause.address }
  | .device pc message => .device (base + pc) message
  | .stepLimit steps => .stepLimit steps

inductive Alike (base : Nat) : Except Trap Flow → Except Trap Flow → Prop
  | error (t : Trap) : Alike base (.error t) (.error (t.moved base))
  | ok {flow flow' : Flow} (h : Flow.Moved base flow flow') : Alike base (.ok flow) (.ok flow')

theorem Outline.IsData.byte {o : Outline} {length address count i : Nat} (h : o.IsData length address count)
    (hi : i < count) : o.IsData length (address + i) 1 := by
  obtain ⟨hfirst, hlast, hcode⟩ := h
  refine ⟨by omega, by omega, ?_⟩
  intro s hs hinstruction
  have := hcode s hs hinstruction
  omega

/-- Writing to data leaves the instructions alone. -/
theorem Layout.CodeIn.fill {l : Layout} {o : Outline} {base : Nat} {m : Memory} (h : l.CodeIn o base m)
    {length address : Nat} {bs : List UInt8} (hdata : o.IsData length address bs.length) :
    l.CodeIn o base (m.fill (base + address) bs) := by
  intro s hs op hoperation
  obtain ⟨symbol, indexed, target, hpayload, htarget, hdecode⟩ := h s hs op hoperation
  refine ⟨symbol, indexed, target, hpayload, htarget, ?_⟩
  have happart := hdata.2.2 s hs (by rw [Statement.isInstruction, hoperation])
  rw [Statement.size, hpayload, Payload.size] at happart
  rw [Memory.bytes_fill_of_apart _ (by omega)]
  exact hdecode

/-! ### What keeps machines related -/

/-- Registers that hold no address of the program. -/
def Register.isPlain : Register → Bool
  | .a | .x | .s => true
  | .l | .pc | .sw => false

namespace Mirrors

variable {l : Layout} {o : Outline} {base : Nat} {m m' : Machine} (h : Mirrors l o base m m')
include h

theorem get_eq {register : Register} (hplain : register.isPlain) :
    m'.registers.get register = m.registers.get register := by
  cases register with
  | a => exact h.a
  | x => exact h.x
  | s => exact h.s
  | l | pc | sw => cases hplain

theorem setRegister {register : Register} (hplain : register.isPlain) (value : Nat) :
    Mirrors l o base (m.setRegister register value) (m'.setRegister register value) := by
  cases register with
  | a => exact { h with a := rfl }
  | x => exact { h with x := rfl }
  | s => exact { h with s := rfl }
  | l | pc | sw => cases hplain

theorem withAccumulator (value : Nat) : Mirrors l o base (m.withAccumulator value) (m'.withAccumulator value) :=
  { h with a := rfl }

theorem withStatus (status : Nat) :
    Mirrors l o base { m with registers := { m.registers with sw := status } }
      { m' with registers := { m'.registers with sw := status } } :=
  { h with sw := rfl }

theorem withConsole (console : Console) : Mirrors l o base { m with console } { m' with console } :=
  { h with console := rfl }

theorem withCounter {pc pc' : Nat} (hpc : Word.wrap pc' = Word.wrap (base + pc)) :
    Mirrors l o base (m.setRegister .pc pc) (m'.setRegister .pc pc') := by
  refine { h with pc := ?_ }
  show Word.wrap pc' = Word.wrap (base + Word.wrap pc)
  rw [hpc]
  unfold Word.wrap
  rw [Nat.add_mod_mod]

theorem withLink {link : Nat} (hzero : link ≠ 0) (hspace : base + link < Word.modulus) :
    Mirrors l o base (m.setRegister .l link) (m'.setRegister .l (base + link)) := by
  refine { h with link := .inr ⟨?_, ?_⟩ }
  · show Word.wrap link ≠ 0
    rw [Word.wrap_of_lt (by omega)]
    exact hzero
  · show Word.wrap (base + link) = base + Word.wrap link
    rw [Word.wrap_of_lt hspace, Word.wrap_of_lt (by omega)]

theorem operand_eq {width : Width} {address : Nat} (hdata : o.IsData l.length address width.bytes) :
    ∃ value, m.operand width address = .ok value ∧ m'.operand width (base + address) = .ok value := by
  have hlast := hdata.2.1
  have hbytes : m'.memory.bytes (base + address) width.bytes = m.memory.bytes address width.bytes := by
    apply Memory.bytes_congr
    intro i hi
    rw [Nat.add_assoc]
    exact h.data _ (hdata.byte hi)
  have hroom := h.room
  have hroom' := h.room'
  refine ⟨LittleEndian.decode (m.memory.bytes address width.bytes), ?_, ?_⟩
  · rw [Machine.operand, Memory.read_eq_ok (by omega)]
  · rw [Machine.operand, Memory.read_eq_ok (by omega), hbytes]

theorem write {count address : Nat} (hdata : o.IsData l.length address count) (value : Nat) :
    ∃ n n', m.memory.write count address value = (.ok (), n) ∧
      m'.memory.write count (base + address) value = (.ok (), n') ∧
      Mirrors l o base { m with memory := n } { m' with memory := n' } := by
  have hlast := hdata.2.1
  have hroom := h.room
  have hroom' := h.room'
  refine ⟨_, _, Memory.write_eq_ok (by omega) value, Memory.write_eq_ok (by omega) value, ?_⟩
  rw [← LittleEndian.length_encode count value] at hdata
  have hcode := h.code.fill hdata
  rw [Nat.zero_add] at hcode
  refine { h with data := ?_, code := hcode, code' := h.code'.fill hdata, room := ?_, room' := ?_ }
  · intro other hother
    show (Memory.fill _ _ _).byte _ = (Memory.fill _ _ _).byte _
    rw [Memory.byte_fill, Memory.byte_fill, h.data other hother, Nat.add_sub_add_left]
    simp only [Nat.add_le_add_iff_left]
  · exact (Memory.size_fill ..).symm ▸ hroom
  · exact (Memory.size_fill ..).symm ▸ hroom'

end Mirrors

/-! ### Steps -/

/-- Two machines that have done the same. -/
structure Agree (l : Layout) (o : Outline) (base : Nat) (done done' : Except Trap Flow × Machine) : Prop where
  result : Alike base done.1 done'.1
  mirrors : Mirrors l o base done.2 done'.2

section Steps

variable {l : Layout} {o : Outline} {base : Nat} {m m' : Machine} (h : Mirrors l o base m m')
include h

theorem agree_load {register : Register} (hplain : register.isPlain) {width : Width} {address : Nat}
    (hdata : o.IsData l.length address width.bytes) :
    Agree l o base (m.execute (.load register width) address) (m'.execute (.load register width) (base + address)) := by
  obtain ⟨value, hread, hread'⟩ := h.operand_eq hdata
  simp only [Machine.execute, hread, hread']
  exact ⟨.ok .next, h.setRegister hplain value⟩

theorem agree_store {register : Register} (hplain : register.isPlain) {width : Width} {address : Nat}
    (hdata : o.IsData l.length address width.bytes) :
    Agree l o base (m.execute (.store register width) address)
      (m'.execute (.store register width) (base + address)) := by
  obtain ⟨n, n', hwrite, hwrite', hmirrors⟩ := h.write hdata (m.registers.get register)
  simp only [Machine.execute, h.get_eq hplain, hwrite, hwrite']
  exact ⟨.ok .next, hmirrors⟩

theorem agree_compare {register : Register} (hplain : register.isPlain) {address : Nat}
    (hdata : o.IsData l.length address Width.word.bytes) :
    Agree l o base (m.execute (.compare register) address) (m'.execute (.compare register) (base + address)) := by
  obtain ⟨value, hread, hread'⟩ := h.operand_eq hdata
  simp only [Machine.execute, hread, hread', h.get_eq hplain]
  exact ⟨.ok .next, h.withStatus _⟩

theorem agree_countIndex {address : Nat} (hdata : o.IsData l.length address Width.word.bytes) :
    Agree l o base (m.execute .countIndex address) (m'.execute .countIndex (base + address)) := by
  have hcounted : Mirrors l o base (m.setRegister .x (m.registers.x + 1)) (m'.setRegister .x (m.registers.x + 1)) :=
    h.setRegister rfl _
  obtain ⟨value, hread, hread'⟩ := hcounted.operand_eq hdata
  simp only [Machine.execute, h.x, hread, hread', hcounted.x]
  exact ⟨.ok .next, hcounted.withStatus _⟩

theorem agree_add {address : Nat} (hdata : o.IsData l.length address Width.word.bytes) :
    Agree l o base (m.execute .add address) (m'.execute .add (base + address)) := by
  obtain ⟨value, hread, hread'⟩ := h.operand_eq hdata
  simp only [Machine.execute, hread, hread', h.a]
  exact ⟨.ok .next, h.withAccumulator _⟩

theorem agree_subtract {address : Nat} (hdata : o.IsData l.length address Width.word.bytes) :
    Agree l o base (m.execute .subtract address) (m'.execute .subtract (base + address)) := by
  obtain ⟨value, hread, hread'⟩ := h.operand_eq hdata
  simp only [Machine.execute, hread, hread', h.a]
  exact ⟨.ok .next, h.withAccumulator _⟩

theorem agree_jump (condition : Condition) {address address' : Nat}
    (htarget : Word.wrap address' = Word.wrap (base + address)) :
    Agree l o base (m.execute (.jump condition) address) (m'.execute (.jump condition) address') := by
  have houtcome : m'.registers.outcome? = m.registers.outcome? := by
    rw [Registers.outcome?, Registers.outcome?, h.sw]
  simp only [Machine.execute, houtcome]
  refine ⟨.ok ?_, h⟩
  split
  · exact .jump htarget
  · exact .next

/-- The instruction at the program counter lies where it was loaded. -/
theorem agree_call {address address' : Nat} (htarget : Word.wrap address' = Word.wrap (base + address))
    (hpc : m'.registers.pc = base + m.registers.pc)
    (hspace : base + m.registers.pc + Instruction.size < Word.modulus) :
    Agree l o base (m.execute .call address) (m'.execute .call address') := by
  simp only [Machine.execute, hpc, Nat.add_assoc]
  exact ⟨.ok (.jump htarget), h.withLink (Nat.succ_ne_zero _) (by omega)⟩

theorem agree_leave {address address' : Nat} :
    Agree l o base (m.execute .leave address) (m'.execute .leave address') := by
  simp only [Machine.execute]
  refine ⟨.ok ?_, h⟩
  rcases h.link with ⟨hzero, hzero'⟩ | ⟨hlink, hlink'⟩
  · rw [if_pos hzero, if_pos hzero']
    exact .halt .returned
  · rw [if_neg hlink, if_neg (by omega), hlink']
    exact .jump rfl

theorem agree_receive {address address' : Nat} (hpc : m'.registers.pc = base + m.registers.pc) :
    Agree l o base (m.execute .receive address) (m'.execute .receive address') := by
  simp only [Machine.execute, h.console, hpc]
  split
  · exact ⟨.error _, h⟩
  · exact ⟨.error _, h⟩
  · exact ⟨.ok .next, (h.withAccumulator _).withConsole _⟩

theorem agree_send {address address' : Nat} (hpc : m'.registers.pc = base + m.registers.pc) :
    Agree l o base (m.execute .send address) (m'.execute .send address') := by
  simp only [Machine.execute, h.console, hpc, h.a]
  split
  · exact ⟨.error _, h⟩
  · exact ⟨.ok .next, h.withConsole _⟩

/-- An opcode that uses its operand finds it moved. -/
theorem agree_execute {op : Opcode} (hldl : op ≠ .ldl) (hstl : op ≠ .stl) {address address' : Nat}
    (hpc : m'.registers.pc = base + m.registers.pc)
    (hspace : base + m.registers.pc + Instruction.size < Word.modulus)
    (hoperand : op.needsOperand → Word.wrap address' = Word.wrap (base + address) ∧
      ∀ width, op.effect.operandWidth? = some width →
        o.IsData l.length address width.bytes ∧ address' = base + address) :
    Agree l o base (m.execute op.effect address) (m'.execute op.effect address') := by
  cases op with
  | lda | ldch | ldx | lds =>
    obtain ⟨hdata, rfl⟩ := (hoperand rfl).2 _ rfl
    exact agree_load h rfl hdata
  | sta | stch | stx | sts =>
    obtain ⟨hdata, rfl⟩ := (hoperand rfl).2 _ rfl
    exact agree_store h rfl hdata
  | comp =>
    obtain ⟨hdata, rfl⟩ := (hoperand rfl).2 _ rfl
    exact agree_compare h rfl hdata
  | tix =>
    obtain ⟨hdata, rfl⟩ := (hoperand rfl).2 _ rfl
    exact agree_countIndex h hdata
  | add =>
    obtain ⟨hdata, rfl⟩ := (hoperand rfl).2 _ rfl
    exact agree_add h hdata
  | sub =>
    obtain ⟨hdata, rfl⟩ := (hoperand rfl).2 _ rfl
    exact agree_subtract h hdata
  | j | jeq | jlt | jgt => exact agree_jump h _ (hoperand rfl).1
  | jsub => exact agree_call h (hoperand rfl).1 hpc hspace
  | rsub => exact agree_leave h
  | rd => exact agree_receive h hpc
  | wd => exact agree_send h hpc
  | hlt => exact ⟨.ok (.halt .halted), h⟩
  | nop => exact ⟨.ok .next, h⟩
  | ldl => exact absurd rfl hldl
  | stl => exact absurd rfl hstl

theorem mirrors_follow {flow flow' : Flow} (hflow : Flow.Moved base flow flow') (pc : Nat) :
    Mirrors l o base (m.follow pc flow) (m'.follow (base + pc) flow') := by
  cases hflow with
  | next => exact h.withCounter (by rw [Nat.add_assoc])
  | jump htarget => exact h.withCounter htarget
  | halt reason => exact h

theorem wrap_effectiveAddress (op : Opcode) (indexed : Bool) (address : Nat) :
    Word.wrap (m'.effectiveAddress ⟨op, indexed, base + address⟩) =
      Word.wrap (base + m.effectiveAddress ⟨op, indexed, address⟩) := by
  simp only [Machine.effectiveAddress, h.x, Word.wrap, Word.modulus]
  split <;> omega

theorem effectiveAddress_eq {op : Opcode} {indexed : Bool} {address : Nat}
    (hspace : base + m.effectiveAddress ⟨op, indexed, address⟩ < Word.modulus) :
    m'.effectiveAddress ⟨op, indexed, base + address⟩ = base + m.effectiveAddress ⟨op, indexed, address⟩ := by
  simp only [Machine.effectiveAddress, h.x, Word.wrap, Word.modulus] at hspace ⊢
  split at hspace
  · rename_i hindexed
    rw [if_pos hindexed, if_pos hindexed]
    omega
  · rename_i hindexed
    rw [if_neg hindexed, if_neg hindexed]

/-- What the two machines fetch. -/
theorem fetches_both (hout : l.Outlined o) (hpc : m'.registers.pc = base + m.registers.pc) {s : Statement}
    (hs : s ∈ o.body) (hlocation : s.location = m.registers.pc) {op : Opcode} (hoperation : s.operation = .opcode op) :
    ∃ indexed address address', m.Fetches ⟨op, indexed, address⟩ ∧ m'.Fetches ⟨op, indexed, address'⟩ ∧
      (op.needsOperand → address' = base + address) := by
  obtain ⟨symbol, indexed, address, hpayload, haddress, hdecode⟩ := h.code s hs op hoperation
  obtain ⟨symbol', indexed', address', hpayload', haddress', hdecode'⟩ := h.code' s hs op hoperation
  cases hpayload.symm.trans hpayload'
  have hrange := hout.mem_range hs
  rw [Statement.size, hpayload, Payload.size, hlocation] at hrange
  have hroom := h.room
  have hroom' := h.room'
  rw [hlocation] at hdecode hdecode'
  rw [Nat.zero_add] at hdecode
  rw [← hpc] at hdecode'
  refine ⟨indexed, address, address', ⟨by omega, hdecode⟩, ⟨by omega, hdecode'⟩, ?_⟩
  intro hneeds
  have hsuits := (hout.wellFormed hs).suits
  rw [hoperation, hpayload] at hsuits
  cases symbol with
  | none => exact absurd rfl (hsuits hneeds)
  | some name =>
    obtain ⟨target, htarget, rfl⟩ := Option.map_eq_some_iff.mp haddress
    obtain ⟨target', htarget', rfl⟩ := Option.map_eq_some_iff.mp haddress'
    cases htarget.symm.trans htarget'
    rw [Nat.zero_add]

theorem pc_eq (hspace : base + m.registers.pc < Word.modulus) : m'.registers.pc = base + m.registers.pc := by
  rw [h.pc, Word.wrap_of_lt hspace]

/-- A step of a confined program keeps the two machines related. -/
theorem agree_step (hout : l.Outlined o) (hspace : base + o.start + l.length < Word.modulus)
    (hconfined : m.Confined o l.length) : Agree l o base m.step m'.step := by
  obtain ⟨s, hs, op, hoperation, hldl, hstl, hlocation, hinside⟩ := hconfined.statement hout
  have hpc := pc_eq h (by omega)
  obtain ⟨indexed, address, address', hfetches, hfetches', hmoved⟩ :=
    fetches_both h hout hpc hs hlocation hoperation
  have hoperand : op.needsOperand →
      Word.wrap (m'.effectiveAddress ⟨op, indexed, address'⟩) =
        Word.wrap (base + m.effectiveAddress ⟨op, indexed, address⟩) ∧
      ∀ width, op.effect.operandWidth? = some width →
        o.IsData l.length (m.effectiveAddress ⟨op, indexed, address⟩) width.bytes ∧
        m'.effectiveAddress ⟨op, indexed, address'⟩ = base + m.effectiveAddress ⟨op, indexed, address⟩ := by
    intro hneeds
    rw [hmoved hneeds]
    refine ⟨wrap_effectiveAddress h op indexed address, ?_⟩
    intro width hwidth
    have hdata := hconfined.isData hfetches hwidth
    have := hdata.2.1
    exact ⟨hdata, effectiveAddress_eq h (by omega)⟩
  obtain ⟨hresult, hmirrors⟩ := agree_execute h hldl hstl hpc (by omega) hoperand
  rw [Machine.step_eq hfetches, Machine.step_eq hfetches', hpc]
  dsimp only
  generalize m.execute op.effect (m.effectiveAddress ⟨op, indexed, address⟩) = done at hresult hmirrors ⊢
  generalize m'.execute op.effect (m'.effectiveAddress ⟨op, indexed, address'⟩) = done' at hresult hmirrors ⊢
  obtain ⟨result, n⟩ := done
  obtain ⟨result', n'⟩ := done'
  cases hresult with
  | error t => exact ⟨.error t, hmirrors⟩
  | ok hflow => exact ⟨.ok hflow, mirrors_follow hmirrors hflow _⟩

end Steps

end Tribyte
