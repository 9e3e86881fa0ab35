import Mathlib.Control.Monad.Basic
import Tribyte.Proofs.Machine.Traps
import Tribyte.Proofs.Relocation.Simulation

/-! A program runs the same at every base.

Loading a program at zero and at another base gives machines that mirror each other (`mirrors_start`). A turn
of a confined program keeps them so (`agree_turn`), and so does a run (`agree_runFor`). Together they say that
relocation is transparent to execution (`relocation_transparent`). -/
namespace Tribyte

/-- How a run ends, in a program that has moved. -/
def movedOutcome (base : Nat) : Except Trap Halt → Except Trap Halt := Except.mapError (Trap.moved base)

/-! ### Runs -/

namespace Machine

/-- The next step transfers control: a jump that is taken, a call or a return. -/
def Jumps (m : Machine) : Prop :=
  ∃ target, m.step.1 = .ok (.jump target)

/-- A turn without a jump leaves the program counter where it is, or moves it to the end of the instruction. -/
theorem pc_turn_le (terminal : Nat) {m : Machine} (h : ¬m.Jumps) :
    (m.turn terminal).2.registers.pc ≤ m.registers.pc + Instruction.size := by
  rw [turn]
  rcases hstep : m.step with ⟨t | flow, n⟩
  · rcases step_eq_error hstep with rfl | ⟨-, rfl⟩ <;> exact Nat.le_add_right ..
  · cases flow with
    | next =>
      show n.registers.pc ≤ m.registers.pc + Instruction.size
      rw [(step_next hstep).2]
      exact Nat.mod_le ..
    | jump target => exact absurd ⟨target, congrArg Prod.fst hstep⟩ h
    | halt reason =>
      obtain ⟨i, m₁, -, hexecute, rfl⟩ := step_eq_ok hstep
      rw [execute_halt hexecute]
      exact Nat.le_add_right ..

theorem not_jumps_of_ended {terminal : Nat} {m m' : Machine} {result : Except Trap Halt}
    (h : m.turn terminal = (some result, m')) : ¬m.Jumps := by
  intro hjumps
  obtain ⟨target, htarget⟩ := hjumps
  rw [turn, show m.step = (.ok (.jump target), m.step.2) from Prod.ext htarget rfl] at h
  cases h

end Machine

section Runs

variable {l : Layout} {o : Outline} {base : Nat} (hout : l.Outlined o)
  (hspace : base + o.start + l.length < Word.modulus)
include hout hspace

/-- One turn of a confined program and of its copy. -/
theorem agree_turn {m m' : Machine} (h : Mirrors l o base m m') (hconfined : m.Confined o l.length) :
    (m'.turn (base + o.start + l.length)).1 = (m.turn (o.start + l.length)).1.map (movedOutcome base) ∧
    Mirrors l o base (m.turn (o.start + l.length)).2 (m'.turn (base + o.start + l.length)).2 := by
  obtain ⟨s, -, op, -, -, -, -, hinside⟩ := hconfined.statement hout
  obtain ⟨hresult, hmirrors⟩ := agree_step h hout hspace hconfined
  rcases hstep : m.step with ⟨result, n⟩
  rcases hstep' : m'.step with ⟨result', n'⟩
  rw [hstep, hstep'] at hresult hmirrors
  replace hmirrors : Mirrors l o base n n' := hmirrors
  cases hresult with
  | error t =>
    rw [Machine.turn, Machine.turn, hstep, hstep']
    exact ⟨rfl, hmirrors⟩
  | ok hflow =>
    cases hflow with
    | next =>
      have hpc := (Machine.step_next hstep).2
      rw [Word.wrap_of_lt (by omega)] at hpc
      have hpc' := pc_eq hmirrors (by omega)
      rw [Machine.turn_of_next hstep, Machine.turn_of_next hstep', hpc', Nat.add_assoc]
      refine ⟨?_, hmirrors⟩
      simp only [Nat.add_le_add_iff_left]
      split <;> rfl
    | jump htarget =>
      rw [Machine.turn, Machine.turn, hstep, hstep']
      exact ⟨rfl, hmirrors⟩
    | halt reason =>
      rw [Machine.turn, Machine.turn, hstep, hstep']
      exact ⟨rfl, hmirrors⟩

/-- A run of a confined program and of its copy, step by step. Where the run ends, the two program counters are
exactly the base apart. -/
theorem agree_runFor {k : Nat} {m m' : Machine} (h : Mirrors l o base m m')
    (hconfined : ∀ j, j < k → (m.runFor (o.start + l.length) j).1 = none →
      (m.runFor (o.start + l.length) j).2.Confined o l.length) :
    (m'.runFor (base + o.start + l.length) k).1 =
      (m.runFor (o.start + l.length) k).1.map (movedOutcome base) ∧
    Mirrors l o base (m.runFor (o.start + l.length) k).2 (m'.runFor (base + o.start + l.length) k).2 ∧
    ((m.runFor (o.start + l.length) k).1 ≠ none → (m'.runFor (base + o.start + l.length) k).2.registers.pc =
      base + (m.runFor (o.start + l.length) k).2.registers.pc) := by
  induction k generalizing m m' with
  | zero => exact ⟨rfl, h, fun hended => absurd rfl hended⟩
  | succ k ih =>
    have hfirst : m.Confined o l.length := hconfined 0 (Nat.succ_pos k) rfl
    obtain ⟨s, -, op, -, -, -, -, hinside⟩ := hfirst.statement hout
    obtain ⟨hresult, hmirrors⟩ := agree_turn hout hspace h hfirst
    have hlater : ∀ n, m.turn (o.start + l.length) = (none, n) → ∀ j, j < k →
        (n.runFor (o.start + l.length) j).1 = none → (n.runFor (o.start + l.length) j).2.Confined o l.length := by
      intro n hturn j hj
      have := hconfined (j + 1) (Nat.succ_lt_succ hj)
      rwa [Machine.runFor, hturn] at this
    rw [Machine.runFor, Machine.runFor]
    rcases hturn : m.turn (o.start + l.length) with ⟨_ | result, n⟩ <;>
      rcases hturn' : m'.turn (base + o.start + l.length) with ⟨result', n'⟩ <;>
      rw [hturn, hturn'] at hresult hmirrors <;>
      cases hresult
    · exact ih hmirrors (hlater n hturn)
    · have hended := Machine.pc_turn_le (o.start + l.length) (Machine.not_jumps_of_ended hturn)
      rw [hturn] at hended
      replace hended : n.registers.pc ≤ m.registers.pc + Instruction.size := hended
      replace hmirrors : Mirrors l o base n n' := hmirrors
      have hpc : n'.registers.pc = base + n.registers.pc := pc_eq hmirrors (by omega)
      exact ⟨rfl, hmirrors, fun _ => hpc⟩

/-- After a step that is no jump, the two program counters are exactly the base apart. -/
theorem agree_of_not_jumps {k : Nat} {m m' : Machine}
    (h : Mirrors l o base (m.runFor (o.start + l.length) (k + 1)).2 (m'.runFor (base + o.start + l.length) (k + 1)).2)
    (hrunning : (m.runFor (o.start + l.length) k).1 = none)
    (hconfined : (m.runFor (o.start + l.length) k).2.Confined o l.length)
    (hjumps : ¬(m.runFor (o.start + l.length) k).2.Jumps) :
    (m'.runFor (base + o.start + l.length) (k + 1)).2.registers.pc =
      base + (m.runFor (o.start + l.length) (k + 1)).2.registers.pc := by
  obtain ⟨s, -, op, -, -, -, -, hinside⟩ := hconfined.statement hout
  have hturn := Machine.runFor_succ_of_running (Prod.ext hrunning rfl)
  have hpc := Machine.pc_turn_le (o.start + l.length) hjumps
  rw [← hturn] at hpc
  exact pc_eq h (by omega)

end Runs

/-! ### Loaded programs -/

namespace Loaded

variable {text : String} {l : Layout} {o : Outline} {entry base : Nat} (hassembled : Assembled text l o entry)
include hassembled

theorem codeIn {m n : Memory} (h : Loaded l o base m n) : l.CodeIn o base n := by
  intro s hs op hoperation
  have hstands := h.stands hassembled hs
  rw [Statement.Stands, hoperation] at hstands
  exact hstands

/-- The bytes of a statement that is no instruction are the same at every base. -/
theorem shifted_data {s : Statement} (hs : s ∈ o.body) (hdata : ¬s.isInstruction) (delta : Nat) :
    s.shifted l.symbols delta = (s.code l.symbols).bytes := by
  apply Statement.shifted_of_plain
  intro name indexed hpayload
  have hsuits := (hassembled.outlined.wellFormed hs).suits
  rw [hpayload] at hsuits
  unfold Statement.isInstruction at hdata
  split at hdata
  · exact hdata rfl
  · rename_i hoperation
    rw [hoperation] at hsuits
    exact hsuits

theorem data_eq {size : Nat} {n n' : Memory} (h : Loaded l o 0 (.zeroed size) n)
    (h' : Loaded l o base (.zeroed size) n') {address : Nat} (hdata : o.IsData l.length address 1) :
    n'.byte (base + address) = n.byte address := by
  by_cases hcovered : ∃ s ∈ o.body, s.hasCode ∧ s.location ≤ address ∧ address < s.location + s.size
  · obtain ⟨s, hs, hcode, hfirst, hlast⟩ := hcovered
    have hplain : ¬s.isInstruction := by
      intro hinstruction
      have := hdata.2.2 s hs hinstruction
      omega
    have hbytes : n'.bytes (base + s.location) s.size = n.bytes (0 + s.location) s.size := by
      rw [h'.bytes_eq hassembled hs hcode, h.bytes_eq hassembled hs hcode, shifted_data hassembled hs hplain,
        shifted_data hassembled hs hplain]
    have hbyte := Memory.byte_eq_of_bytes_eq hbytes (i := address - s.location) (by omega)
    rwa [Nat.zero_add, Nat.add_assoc, Nat.add_sub_cancel' hfirst] at hbyte
  · have hkept : n.byte address = (Memory.zeroed size).byte address := by
      apply h.byte_kept hassembled
      intro s hs hcode hx
      exact hcovered ⟨s, hs, hcode, by omega, by omega⟩
    have hkept' : n'.byte (base + address) = (Memory.zeroed size).byte (base + address) := by
      apply h'.byte_kept hassembled
      intro s hs hcode hx
      exact hcovered ⟨s, hs, hcode, by omega, by omega⟩
    rw [hkept, hkept', Memory.byte_zeroed, Memory.byte_zeroed]

end Loaded

/-- A program loaded at zero and at another base starts in machines that mirror each other. -/
theorem mirrors_start {text : String} {l : Layout} {o : Outline} {entry base size : Nat}
    (hassembled : Assembled text l o entry) {n n' : Memory} (h : Loaded l o 0 (.zeroed size) n)
    (h' : Loaded l o base (.zeroed size) n') {program program' : Program}
    (hentry : program.entry = wrapAddress (0 + entry)) (hentry' : program'.entry = wrapAddress (base + entry))
    (console : Console) :
    Mirrors l o base (program.start n console) (program'.start n' console) where
  a := rfl
  x := rfl
  s := rfl
  sw := rfl
  pc := by
    show Word.wrap program'.entry = Word.wrap (base + Word.wrap program.entry)
    rw [hentry, hentry']
    simp only [Word.wrap, Word.modulus, wrapAddress]
    omega
  link := .inl ⟨rfl, rfl⟩
  console := rfl
  data := fun _ hdata => h.data_eq hassembled h' hdata
  code := h.codeIn hassembled
  code' := h'.codeIn hassembled
  room := by
    show o.start + l.length ≤ n.size
    rw [h.laid.size, ← Nat.zero_add o.start]
    exact h.inside
  room' := by
    show base + o.start + l.length ≤ n'.size
    rw [h'.laid.size]
    exact h'.inside

/-- A program that assembles runs at every base as it does at zero, as long as it executes its own instructions
and keeps its operands to its own data: the same steps, the same outcome, and machines that differ by the base
alone. The program counters are the base apart modulo `2 ^ 24`, and exactly so unless a limit stops the run right
after a jump, or before its first step. -/
theorem relocation_transparent {text : String} {records : List Record} {image : List UInt8} {layout : Layout}
    {outline : Outline} (hassemble : assemble text = .ok records) (hencode : encodeImage records = .ok image)
    (hlayout : Layout.ofLines (sourceLines text) = .ok layout)
    (houtline : Outline.ofStatements layout.statements.toList = .ok outline)
    {size base : Nat} {program program' : Program} {memory memory' : Memory}
    (hload : loadImage (.zeroed size) image 0 = (.ok program, memory))
    (hload' : loadImage (.zeroed size) image base = (.ok program', memory'))
    (hspace : base + outline.start + layout.length < Word.modulus) {console : Console} {limit : Option Nat}
    (hconfined : ∀ k, (∀ n, limit = some n → k < n) → (program.runFor memory console k).1 = none →
      (program.runFor memory console k).2.Confined outline layout.length) :
    (∀ k, (∀ n, limit = some n → k ≤ n) →
      (program'.runFor memory' console k).1 = (program.runFor memory console k).1.map (movedOutcome base) ∧
      (program.runFor memory console k).2.Moved outline layout.length base (program'.runFor memory' console k).2 ∧
      ((program.runFor memory console k).1 ≠ none ∨ (∀ n, limit = some n → k < n) ∨
          (∃ j, k = j + 1 ∧ ¬(program.runFor memory console j).2.Jumps) →
        (program'.runFor memory' console k).2.registers.pc =
          base + (program.runFor memory console k).2.registers.pc)) ∧
    (limit ≠ none ∨ (∃ k, (program.runFor memory console k).1 ≠ none) →
      (program'.run memory' console limit).1 = movedOutcome base (program.run memory console limit).1 ∧
      (program.run memory console limit).2.Moved outline layout.length base (program'.run memory' console limit).2) := by
  obtain ⟨entry, hassembled, rfl⟩ := Assembled.of_assemble hassemble hlayout houtline
  obtain ⟨image', hencode', hdecode⟩ := hassembled.image
  cases hencode.symm.trans hencode'
  rw [loadImage, hdecode] at hload hload'
  have hwide : Word.modulus < 0x100000000 := by decide
  obtain ⟨hloaded, hprogram⟩ := hassembled.loaded (by omega) hload
  obtain ⟨hloaded', hprogram'⟩ := hassembled.loaded (by omega) hload'
  have hstart := mirrors_start hassembled hloaded hloaded' (congrArg Program.entry hprogram)
    (congrArg Program.entry hprogram') console
  have hterminal : program.terminal = outline.start + layout.length := by
    rw [hprogram, Nat.zero_add]
  have hterminal' : program'.terminal = base + outline.start + layout.length := by
    rw [hprogram']
  unfold Program.runFor Program.run
  unfold Program.runFor at hconfined
  rw [hterminal] at hconfined ⊢
  rw [hterminal']
  have hagree (k : Nat) (hk : ∀ n, limit = some n → k ≤ n) := agree_runFor hassembled.outlined hspace hstart
    (k := k) fun j hj => hconfined j fun n hn => Nat.lt_of_lt_of_le hj (hk n hn)
  constructor
  · intro k hk
    obtain ⟨hresult, hmirrors, hended⟩ := hagree k hk
    refine ⟨hresult, hmirrors.toMoved, ?_⟩
    intro hpc
    rcases hpc with hne | hbefore | ⟨j, rfl, hjumps⟩
    · exact hended hne
    · by_cases hrunning : ((program.start memory console).runFor (outline.start + layout.length) k).1 = none
      · -- A step is still to come, and it is taken from inside the program.
        obtain ⟨s, -, op, -, -, -, -, hinside⟩ := (hconfined k hbefore hrunning).statement hassembled.outlined
        exact pc_eq hmirrors (by omega)
      · exact hended hrunning
    · by_cases hrunning : ((program.start memory console).runFor (outline.start + layout.length) j).1 = none
      · exact agree_of_not_jumps hassembled.outlined hspace hmirrors hrunning (hconfined j hk hrunning) hjumps
      · obtain ⟨ended, hended'⟩ := Option.ne_none_iff_exists'.mp hrunning
        apply hended
        rw [Machine.runFor_succ_of_ended (Prod.ext hended' rfl)]
        exact Option.some_ne_none ended
  · exact Machine.run_agree (fun n => rfl) fun k hk => ⟨(hagree k hk).1, (hagree k hk).2.1.toMoved⟩

/-! ### Two programs -/

/-- The first `limit` steps of a loaded program are confined. -/
def Program.ConfinedFor (program : Program) (memory : Memory) (console : Console) (limit : Nat) (l : Layout)
    (o : Outline) : Prop :=
  ∀ k < limit, (program.runFor memory console k).1 = none →
    (program.runFor memory console k).2.Confined o l.length

instance (program : Program) (memory : Memory) (console : Console) (limit : Nat) (l : Layout) (o : Outline) :
    Decidable (program.ConfinedFor memory console limit l o) :=
  inferInstanceAs (Decidable (∀ k < limit, _))

/-- A program that stores its input and echoes it, by a subroutine that a loop calls. -/
def echoText : String :=
  "P START 0010\nF JSUB S\n TIX N\n JLT F\n HLT\nS RD\n STCH B,X\n WD\n RSUB\nN WORD 2\nB RESB 2\n END F\n"

def echoImage : List UInt8 :=
  [0, 80, 0, 0, 0, 0, 0, 16, 0, 0, 29, 0, 0, 1, 16, 0, 0, 27, 18, 28, 0, 11, 40, 0, 16, 16, 0, 22, 0, 0, 20, 0, 0,
    6, 43, 128, 21, 0, 0, 19, 0, 0, 2, 0, 0, 3, 17, 0, 0, 2, 3, 20, 0, 0, 2, 3, 23, 0, 0, 2, 3, 32, 0, 0, 2,
    2, 16, 0, 0]

/-- That program, loaded at zero and at `0x100`. A limit of two steps stops it inside the subroutine, after a step
that is no jump. -/
theorem echo_program_transparent :
    ∃ layout outline program program' memory memory',
      assemble echoText = .ok (decodeImage echoImage) ∧
      Layout.ofLines (sourceLines echoText) = .ok layout ∧
      Outline.ofStatements layout.statements.toList = .ok outline ∧
      loadImage (.zeroed 0x400) echoImage 0 = (.ok program, memory) ∧
      loadImage (.zeroed 0x400) echoImage 0x100 = (.ok program', memory') ∧
      program.ConfinedFor memory { input := [104, 105] } 20 layout outline ∧
      (program.run memory { input := [104, 105] } (some 20)).1 = .ok .halted ∧
      (program'.run memory' { input := [104, 105] } (some 20)).1 = .ok .halted ∧
      (program.run memory { input := [104, 105] } (some 20)).2.Moved outline layout.length 0x100
        (program'.run memory' { input := [104, 105] } (some 20)).2 ∧
      (program.runFor memory { input := [104, 105] } 2).1 = none ∧
      (program.runFor memory { input := [104, 105] } 2).2.registers.pc = 0x1F ∧
      (program'.runFor memory' { input := [104, 105] } 2).2.registers.pc =
        0x100 + (program.runFor memory { input := [104, 105] } 2).2.registers.pc := by
  have hload : loadImage (.zeroed 0x400) echoImage 0 = (.ok ⟨"P", 0, 16, 16, 45⟩, _) :=
    Prod.ext (by decide +kernel) rfl
  have hload' : loadImage (.zeroed 0x400) echoImage 0x100 = (.ok ⟨"P", 256, 272, 272, 301⟩, _) :=
    Prod.ext (by decide +kernel) rfl
  have hlaidOut : laidOut echoText fun l o => 0x100 + o.start + l.length < Word.modulus ∧
      Program.ConfinedFor ⟨"P", 0, 16, 16, 45⟩ (loadImage (.zeroed 0x400) echoImage 0).2 { input := [104, 105] } 20
        l o := by decide +kernel
  have hhalted : (Program.run ⟨"P", 0, 16, 16, 45⟩ (loadImage (.zeroed 0x400) echoImage 0).2
      { input := [104, 105] } (some 20)).1 = .ok .halted := by decide +kernel
  obtain ⟨layout, outline, hlayout, houtline, hcheck⟩ := exists_of_laidOut hlaidOut
  obtain ⟨hspace, hconfined⟩ := of_decide_eq_true hcheck
  have hassemble : assemble echoText = .ok (decodeImage echoImage) := by decide +kernel
  have hencode : encodeImage (decodeImage echoImage) = .ok echoImage := by decide +kernel
  obtain ⟨hresult, hmoved⟩ := (relocation_transparent hassemble hencode hlayout houtline hload hload' hspace
    fun k (hk : ∀ n, some 20 = some n → k < n) => hconfined k (hk 20 rfl)).2 (.inl (Option.some_ne_none 20))
  rw [hhalted] at hresult
  have hnext : (Program.runFor ⟨"P", 0, 16, 16, 45⟩ (loadImage (.zeroed 0x400) echoImage 0).2
      { input := [104, 105] } 1).2.step.1 = .ok .next := by decide +kernel
  obtain ⟨-, -, hpc⟩ := (relocation_transparent hassemble hencode hlayout houtline hload hload' hspace
    fun k (hk : ∀ n, some 2 = some n → k < n) => hconfined k (Nat.lt_trans (hk 2 rfl) (by decide))).1 2
      fun n hn => Nat.le_of_eq (Option.some.inj hn)
  have hstopped := hpc (.inr (.inr ⟨1, rfl, fun ⟨_, hjump⟩ => nomatch hnext.symm.trans hjump⟩))
  exact ⟨layout, outline, _, _, _, _, hassemble, hlayout, houtline, hload, hload', hconfined, hhalted, hresult, hmoved,
    by decide +kernel, by decide +kernel, hstopped⟩

/-- A program that jumps below its own start, round the end of the address space. -/
def wrappingText : String := "P START 0000\n LDX V\n J V,X\nV WORD -7\n END\n"

def wrappingImage : List UInt8 :=
  [0, 80, 0, 0, 0, 0, 0, 0, 0, 0, 9, 0, 0, 1, 0, 0, 0, 9, 2, 6, 0, 14, 6, 128, 249, 255, 255, 3, 1, 0, 0, 2,
    3, 4, 0, 0, 2, 2, 0, 0, 0]

/-- Stopped by a limit right after that jump, the program counters of that program are not the base apart:
the sum is no word. -/
theorem wrapping_jump_not_shifted :
    ∃ layout outline program program' memory memory',
      assemble wrappingText = .ok (decodeImage wrappingImage) ∧
      encodeImage (decodeImage wrappingImage) = .ok wrappingImage ∧
      Layout.ofLines (sourceLines wrappingText) = .ok layout ∧
      Outline.ofStatements layout.statements.toList = .ok outline ∧
      loadImage (.zeroed 0x400) wrappingImage 0 = (.ok program, memory) ∧
      loadImage (.zeroed 0x400) wrappingImage 0x100 = (.ok program', memory') ∧
      0x100 + outline.start + layout.length < Word.modulus ∧
      program.ConfinedFor memory {} 2 layout outline ∧
      (program.run memory {} (some 2)).2.registers.pc = 0xFFFFFF ∧
      (program'.run memory' {} (some 2)).2.registers.pc = 0xFF ∧
      (program'.run memory' {} (some 2)).2.registers.pc ≠ 0x100 + (program.run memory {} (some 2)).2.registers.pc := by
  have hload : loadImage (.zeroed 0x400) wrappingImage 0 = (.ok ⟨"P", 0, 0, 0, 9⟩, _) :=
    Prod.ext (by decide +kernel) rfl
  have hload' : loadImage (.zeroed 0x400) wrappingImage 0x100 = (.ok ⟨"P", 256, 256, 256, 265⟩, _) :=
    Prod.ext (by decide +kernel) rfl
  have hlaidOut : laidOut wrappingText fun l o => 0x100 + o.start + l.length < Word.modulus ∧
      Program.ConfinedFor ⟨"P", 0, 0, 0, 9⟩ (loadImage (.zeroed 0x400) wrappingImage 0).2 {} 2 l o := by
    decide +kernel
  obtain ⟨layout, outline, hlayout, houtline, hcheck⟩ := exists_of_laidOut hlaidOut
  obtain ⟨hspace, hconfined⟩ := of_decide_eq_true hcheck
  exact ⟨layout, outline, _, _, _, _, by decide +kernel, by decide +kernel, hlayout, houtline, hload, hload', hspace,
    hconfined, by decide +kernel, by decide +kernel, by decide +kernel⟩

end Tribyte
