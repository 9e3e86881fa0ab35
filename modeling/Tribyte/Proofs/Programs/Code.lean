import Tribyte.Proofs.Assembly.Acceptance
import Tribyte.Proofs.Assembly.SymbolRange
import Tribyte.Proofs.Loading.Loadability
import Tribyte.Proofs.Machine.Arithmetic
import Tribyte.Proofs.Machine.Runs

/-! Runs of known code.

`Memory.Holds` says which instruction stands at an address. At a known instruction the next step is known too, by one
rule an opcode (`turn_rd` and those after it), and steps are chained by `runFor_cons`. The code of a loaded program is
known from its statements (`Loaded.holds`). -/
namespace Tribyte

/-- The instruction at an address. -/
structure Memory.Holds (m : Memory) (address : Nat) (i : Instruction) : Prop where
  inside : address + Instruction.size ≤ m.size
  decoded : Instruction.decode? (m.bytes address Instruction.size) = some i

theorem Registers.holds_equal (r : Registers) : Condition.equal.holds r.outcome? ↔ r.sw = 0 := by
  unfold outcome? Condition.holds
  repeat' split
  all_goals simp_all

theorem Registers.holds_less (r : Registers) : Condition.less.holds r.outcome? ↔ r.sw = 1 := by
  unfold outcome? Condition.holds
  repeat' split
  all_goals simp_all

namespace Machine

/-- The machine about to execute another instruction. -/
def withPc (m : Machine) (pc : Nat) : Machine := { m with registers := { m.registers with pc } }

theorem setRegister_byte (m : Machine) (b : UInt8) : m.setRegister .a b.toNat = m.withAccumulator b.toNat := by
  show m.withAccumulator (Word.wrap b.toNat) = _
  rw [Word.wrap_of_lt (Word.byte_lt b)]

/-! ### One step -/

section Steps

variable {terminal : Nat} {m m' : Machine} {i : Instruction} (hi : m.memory.Holds m.registers.pc i)
include hi

theorem effectiveAddress_lt : m.effectiveAddress i < Word.modulus := by
  have haddress := (Instruction.spelled_of_decode? hi.decoded).address_lt
  unfold effectiveAddress
  split
  · exact Word.wrap_lt _
  · exact Nat.lt_trans haddress (by decide)

theorem turn_next (h : m.execute i.opcode.effect (m.effectiveAddress i) = (.ok .next, m'))
    (hnext : m.registers.pc + Instruction.size < terminal) (hspace : terminal ≤ Word.modulus) :
    m.turn terminal = (none, m'.withPc (m.registers.pc + Instruction.size)) := by
  have hfollow : m'.follow m.registers.pc .next = m'.withPc (m.registers.pc + Instruction.size) := by
    show m'.withPc (Word.wrap (m.registers.pc + Instruction.size)) = _
    rw [Word.wrap_of_lt (Nat.lt_of_lt_of_le hnext hspace)]
  have hstep : m.step = (.ok .next, m'.withPc (m.registers.pc + Instruction.size)) := by
    rw [step_eq ⟨hi.inside, hi.decoded⟩, h, ← hfollow]
  rw [turn_of_next hstep]
  exact congrArg (·, _) (if_neg (Nat.not_le.mpr hnext))

theorem turn_jump {target : Nat} (h : m.execute i.opcode.effect (m.effectiveAddress i) = (.ok (.jump target), m'))
    (htarget : target < Word.modulus) : m.turn terminal = (none, m'.withPc target) := by
  have hfollow : m'.follow m.registers.pc (.jump target) = m'.withPc target := by
    show m'.withPc (Word.wrap target) = _
    rw [Word.wrap_of_lt htarget]
  rw [turn, step_eq ⟨hi.inside, hi.decoded⟩, h, ← hfollow]

theorem turn_halt {reason : Halt} (h : m.execute i.opcode.effect (m.effectiveAddress i) = (.ok (.halt reason), m')) :
    m.turn terminal = (some (.ok reason), m') := by
  rw [turn, step_eq ⟨hi.inside, hi.decoded⟩, h]
  rfl

theorem turn_trap {t : Trap} (h : m.execute i.opcode.effect (m.effectiveAddress i) = (.error t, m')) :
    m.turn terminal = (some (.error t), m') := by
  rw [turn, step_eq ⟨hi.inside, hi.decoded⟩, h]

end Steps

/-! ### Opcodes -/

section Opcodes

variable {terminal address w : Nat} {m : Machine}

theorem turn_hlt (hi : m.memory.Holds m.registers.pc ⟨.hlt, false, address⟩) :
    m.turn terminal = (some (.ok .halted), m) :=
  turn_halt hi rfl

/-- RD at the end of the input. -/
theorem turn_rd_nil (hi : m.memory.Holds m.registers.pc ⟨.rd, false, address⟩) (hinput : m.console.input = [])
    (hfault : m.console.readFault = none) : m.turn terminal = (some (.error (.noInput m.registers.pc)), m) := by
  refine turn_trap hi ?_
  simp only [execute, Opcode.effect, hfault, hinput]

theorem turn_taken {op : Opcode} {condition : Condition} (hi : m.memory.Holds m.registers.pc ⟨op, false, address⟩)
    (hop : op.effect = .jump condition) (hholds : condition.holds m.registers.outcome?) :
    m.turn terminal = (none, m.withPc address) := by
  refine turn_jump hi ?_ (effectiveAddress_lt hi)
  show m.execute op.effect address = _
  rw [hop]
  exact (Performs.taken hholds).execute_eq (by simp) (by simp)

section Next

variable (hnext : m.registers.pc + Instruction.size < terminal) (hspace : terminal ≤ Word.modulus)
include hnext hspace

theorem turn_passed {op : Opcode} {condition : Condition} (hi : m.memory.Holds m.registers.pc ⟨op, false, address⟩)
    (hop : op.effect = .jump condition) (hholds : ¬condition.holds m.registers.outcome?) :
    m.turn terminal = (none, m.withPc (m.registers.pc + Instruction.size)) := by
  refine turn_next hi ?_ hnext hspace
  show m.execute op.effect address = _
  rw [hop]
  exact (Performs.passed (Bool.eq_false_iff.mpr hholds)).execute_eq (by simp) (by simp)

theorem turn_rd {b : UInt8} {rest : List UInt8} (hi : m.memory.Holds m.registers.pc ⟨.rd, false, address⟩)
    (hinput : m.console.input = b :: rest) (hfault : m.console.readFault = none) :
    m.turn terminal = (none, { m.withAccumulator b.toNat with console := { m.console with input := rest } }.withPc
      (m.registers.pc + Instruction.size)) := by
  exact turn_next hi ((Performs.receive hinput).execute_eq (fun _ => hfault) (by simp)) hnext hspace

theorem turn_wd {b : UInt8} (hi : m.memory.Holds m.registers.pc ⟨.wd, false, address⟩)
    (ha : m.registers.a = b.toNat) (hfault : m.console.writeFault = none) :
    m.turn terminal = (none, { m with console := { m.console with output := m.console.output.push b } }.withPc
      (m.registers.pc + Instruction.size)) := by
  have hbyte : m.registers.a.toUInt8 = b := by
    rw [ha]
    exact UInt8.ofNat_toNat
  refine turn_next hi ?_ hnext hspace
  rw [← hbyte]
  exact Performs.send.execute_eq (by simp) fun _ => hfault

/-- COMP, with no more of the status word than whether the two are equal. -/
theorem turn_comp (hi : m.memory.Holds m.registers.pc ⟨.comp, false, address⟩)
    (hread : m.memory.read 3 address = .ok w) :
    ∃ status, (status = 0 ↔ Word.signed m.registers.a = Word.signed w) ∧
      m.turn terminal = (none, { m with registers := { m.registers with sw := status } }.withPc
        (m.registers.pc + Instruction.size)) := by
  obtain ⟨status, hexecute, hequal, -⟩ := (computes hread).comp
  exact ⟨status, hequal, turn_next hi hexecute hnext hspace⟩

theorem turn_tix (hi : m.memory.Holds m.registers.pc ⟨.tix, false, address⟩)
    (hread : m.memory.read 3 address = .ok w) (hx : m.registers.x < w) (hw : w ≤ 0x7FFFFF) :
    m.turn terminal = (none, (m.withCount (m.registers.x + 1) (if m.registers.x + 1 < w then 1 else 0)).withPc
      (m.registers.pc + Instruction.size)) :=
  turn_next hi (execute_tix hread hx hw) hnext hspace

/-- LDCH of a byte of a table. -/
theorem turn_ldch {b : UInt8} (hi : m.memory.Holds m.registers.pc ⟨.ldch, true, address⟩)
    (hb : m.memory.byte (address + m.registers.x) = b) (hinside : address + m.registers.x < m.memory.size)
    (hsize : m.memory.size ≤ Word.modulus) :
    m.turn terminal = (none, (m.withAccumulator b.toNat).withPc (m.registers.pc + Instruction.size)) := by
  have haddress : m.effectiveAddress ⟨.ldch, true, address⟩ = address + m.registers.x :=
    Word.wrap_of_lt (Nat.lt_of_lt_of_le hinside hsize)
  refine turn_next hi ?_ hnext hspace
  rw [haddress, ← hb, ← setRegister_byte, ← LittleEndian.decode_singleton]
  exact (Performs.load hinside).execute_eq (by simp) (by simp)

end Next

end Opcodes

/-! ### Chains of steps -/

section Chains

variable {terminal : Nat} {m m' : Machine}

theorem runFor_cons {k : Nat} {r : Option (Except Trap Halt) × Machine} (h : m.turn terminal = (none, m'))
    (hrest : m'.runFor terminal k = r) : m.runFor terminal (k + 1) = r := by
  rw [runFor, h]
  exact hrest

theorem runFor_trans {j : Nat} (h : m.runFor terminal j = (none, m')) (k : Nat) :
    m.runFor terminal (j + k) = m'.runFor terminal k := by
  rw [runFor_add, h]

theorem Stops.of_running {j k : Nat} {result : Except Trap Halt} {m'' : Machine}
    (h : m.runFor terminal j = (none, m')) (hstops : m'.Stops terminal k result m'') :
    m.Stops terminal (j + k) result m'' := by
  refine ⟨?_, ?_⟩
  · rw [runFor_trans h]
    exact hstops.going
  · rw [Nat.add_assoc, runFor_trans h]
    exact hstops.ended

theorem stops_of_turn {result : Except Trap Halt} (h : m.turn terminal = (some result, m')) :
    m.Stops terminal 0 result m' :=
  ⟨rfl, (runFor_one terminal m).trans h⟩

end Chains

end Machine

/-! ### Loaded programs -/

/-- The outline of statements that are laid out. -/
theorem Layout.Outlined.eq_of_statements {l : Layout} {o : Outline} (h : l.Outlined o) {first last : Statement}
    {body : List Statement} {name : String} {start : Nat} (hss : l.statements.toList = first :: (body ++ [last]))
    (hfirst : first.payload = .start name start) : o = ⟨name, start, body, last⟩ := by
  obtain ⟨first', hss', hfirst'⟩ := h.statements
  obtain ⟨rfl, hrest⟩ := List.cons.inj (hss.symm.trans hss')
  obtain ⟨rfl, hlast⟩ := List.append_inj' hrest rfl
  cases hfirst.symm.trans hfirst'
  cases hlast
  rfl

/-- A program ends where its END stands. -/
theorem Layout.Outlined.stop_eq {l : Layout} {o : Outline} (h : l.Outlined o) :
    o.start + l.length = o.last.location := by
  obtain ⟨-, -, -, -, -, hlast⟩ := h.locations
  rw [h.length_eq, hlast]

/-- Lines that spell a program are assembled to its statements, and the label that END names is where it starts. -/
theorem Listed.exists_assembled {text : String} {first last t : Statement} {body : List Statement}
    {name label : String} {start : Nat} {literal : Option Nat}
    (h : Listed 0 (sourceLines text) (first :: (body ++ [last]))) (hprogram : IsProgram (first :: (body ++ [last])))
    (hfirst : first.payload = .start name start) (hlast : last.payload = .finish (some label) literal) (ht : t ∈ body)
    (hlabel : t.label = some label) : ∃ l, Assembled text l ⟨name, start, body, last⟩ t.location := by
  obtain ⟨records, hassemble⟩ := exists_assemble_iff.mpr ⟨_, h, hprogram⟩
  obtain ⟨l, o, entry, hassembled, -⟩ := assemble_eq_ok_iff.mp hassemble
  have hss := (Layout.entered_ofLines hassembled.layout).listed.unique h
  cases hassembled.outlined.eq_of_statements hss hfirst
  have haddress : l.symbols.address? label = some t.location :=
    (hassembled.outlined.sound.symbols _ _).mpr ⟨t, hassembled.outlined.mem_statements ht, hlabel, rfl⟩
  cases hassembled.entry.symm.trans (Statement.entry_of_label hlast haddress)
  exact ⟨l, hassembled⟩

section Loaded

variable {text : String} {l : Layout} {o : Outline} {entry base : Nat} (hassembled : Assembled text l o entry)
include hassembled

/-- Where the highest label is an operand, it decides how far up the program can be loaded. -/
theorem Assembled.exists_loadImage_iff {image : List UInt8} (hdecode : decodeImage image = l.programRecords o entry)
    {s t : Statement} {name : String} {indexed : Bool} (hs : s ∈ o.body)
    (hpayload : s.payload = .instruction (some name) indexed) (ht : t ∈ o.body) (hlabel : t.label = some name)
    (hhighest : ∀ u ∈ o.body ++ [o.last], u.label ≠ none → u.location ≤ t.location) {m : Memory}
    (hsize : m.size < 0x100000000) (base : Nat) :
    (∃ program n, loadImage m image base = (.ok program, n)) ↔
      base + o.last.location ≤ m.size ∧ base + t.location ≤ Instruction.greatestAddress := by
  have hsymbols := hassembled.outlined.sound.symbols
  obtain ⟨first, hss, -, hzero, -⟩ := hassembled.outlined.locations
  have hmem : t ∈ l.statements.toList := hassembled.outlined.mem_statements ht
  rw [loadImage, hdecode, hassembled.exists_load_iff hsize, Nat.add_assoc, hassembled.outlined.stop_eq]
  refine and_congr_right fun _ => ⟨?_, ?_⟩
  · intro hreaches
    exact hreaches s hs name indexed t.location hpayload ((hsymbols name _).mpr ⟨t, hmem, hlabel, rfl⟩)
  · intro hreach s' _ name' _ address _ haddress
    obtain ⟨u, hu, hlabel', rfl⟩ := (hsymbols name' address).mp haddress
    rw [hss] at hu
    rcases List.mem_cons.mp hu with rfl | hu
    · omega
    · have := hhighest u hu (by simp [hlabel'])
      omega

/-- A program that is loaded from its image, about to start. -/
theorem Assembled.loaded_image {image : List UInt8} (hdecode : decodeImage image = l.programRecords o entry)
    {m n : Memory} (hsize : m.size < 0x100000000) {program : Program}
    (hload : loadImage m image base = (.ok program, n)) :
    Loaded l o base m n ∧ program.terminal = base + o.last.location ∧
      (base + entry < Word.modulus → ∀ console,
        program.start n console = { registers := { pc := base + entry }, memory := n, console }) := by
  rw [loadImage, hdecode] at hload
  have hinside := ((load_eq_ok_iff isContent_programRecords).mp hload).1
  obtain ⟨hloaded, rfl⟩ := hassembled.loaded (Nat.lt_of_le_of_lt hinside hsize) hload
  refine ⟨hloaded, by rw [Nat.add_assoc, hassembled.outlined.stop_eq], ?_⟩
  intro hentry console
  have hpc : Word.wrap (wrapAddress (base + entry)) = base + entry := by
    rw [wrapAddress_of_lt (Nat.lt_trans hentry (by decide)), Word.wrap_of_lt hentry]
  show ({ registers := { pc := Word.wrap (wrapAddress (base + entry)) }, memory := n, console } : Machine) = _
  rw [hpc]

namespace Loaded

variable {m n : Memory} (h : Loaded l o base m n)
include h

theorem inside_last : base + o.last.location ≤ m.size := by
  rw [← hassembled.outlined.stop_eq, ← Nat.add_assoc]
  exact h.inside

variable {s : Statement} (hs : s ∈ o.body)
include hs

theorem inside_statement : base + s.location + s.size ≤ n.size := by
  have hinside := h.inside
  have hrange := hassembled.outlined.mem_range hs
  rw [h.laid.size]
  omega

/-- An instruction of a loaded program. -/
theorem holds {op : Opcode} {symbol : Option String} {indexed : Bool} {address : Nat}
    (hoperation : s.operation = .opcode op) (hpayload : s.payload = .instruction symbol indexed)
    (haddress : l.symbols.operandAddress? base symbol = some address) :
    n.Holds (base + s.location) ⟨op, indexed, address⟩ := by
  have hinside := h.inside_statement hassembled hs
  rw [Statement.size_of_instruction hpayload] at hinside
  have hstands := h.stands hassembled hs
  rw [Statement.Stands, hoperation] at hstands
  obtain ⟨symbol', indexed', address', hpayload', haddress', hdecoded⟩ := hstands
  cases hpayload.symm.trans hpayload'
  cases haddress.symm.trans haddress'
  exact ⟨hinside, hdecoded⟩

/-- An instruction whose operand is the label of another statement. -/
theorem holds_symbolic {op : Opcode} {name : String} {indexed : Bool} (hoperation : s.operation = .opcode op)
    (hpayload : s.payload = .instruction (some name) indexed) {t : Statement} (ht : t ∈ o.body)
    (hlabel : t.label = some name) : n.Holds (base + s.location) ⟨op, indexed, base + t.location⟩ := by
  have houtlined := hassembled.outlined
  have haddress := (houtlined.sound.symbols name t.location).mpr ⟨t, houtlined.mem_statements ht, hlabel, rfl⟩
  refine h.holds hassembled hs hoperation hpayload ?_
  rw [SymbolTable.operandAddress?, haddress, Option.map_some]

theorem read_word {value : Nat} (hoperation : s.operation = .directive .word) (hpayload : s.payload = .word value) :
    n.read 3 (base + s.location) = .ok value := by
  have hinside := h.inside_statement hassembled hs
  rw [Statement.size, hpayload, Payload.size] at hinside
  have hstands := h.stands hassembled hs
  rw [Statement.Stands, hoperation] at hstands
  obtain ⟨value', hpayload', hvalue⟩ := hstands
  cases hpayload.symm.trans hpayload'
  rw [Memory.read_eq_ok hinside, hvalue]

end Loaded

end Loaded

end Tribyte
