import Tribyte.Instruction.Form
import Tribyte.Machine.Registers
import Tribyte.Memory

/-! One step of the machine: fetch, decode, execute.

A step returns the machine as it leaves it, also where it traps: fetching and decoding change nothing, but
`Effect.countIndex` has already moved the index register when its operand cannot be read. -/
namespace Tribyte

open Text

/-- A byte device. A fault, once set, fails every read or write with its message. -/
structure Console where
  input : List UInt8 := []
  output : Array UInt8 := #[]
  readFault : Option String := none
  writeFault : Option String := none
  deriving DecidableEq, Repr

structure Machine where
  registers : Registers := {}
  memory : Memory
  console : Console := {}

inductive Trap where
  | unknownOpcode (pc : Nat) (code : UInt8)
  | noInput (pc : Nat)
  | bus (address : Nat) (cause : AccessError)
  | device (pc : Nat) (message : String)
  | stepLimit (steps : Nat)
  deriving DecidableEq, Repr

def Trap.message : Trap → String
  | unknownOpcode pc code =>
    "Unknown opcode " ++ Hexadecimal.marked 2 code.toNat ++ " at " ++ Hexadecimal.marked 6 pc
  | noInput pc => "No console input available at " ++ Hexadecimal.marked 6 pc
  | bus address cause => "Bus error at " ++ Hexadecimal.marked 6 address ++ ": " ++ cause.message
  | device pc message => "Console error at " ++ Hexadecimal.marked 6 pc ++ ": " ++ message
  | stepLimit steps => s!"Step limit of {steps} instructions reached"

inductive Halt where
  /-- The program asked to halt. -/
  | halted
  /-- A return with no caller. -/
  | returned
  /-- Sequential execution reached the terminal address. -/
  | terminal
  deriving DecidableEq, Repr

def Halt.name : Halt → String
  | halted => "Halted"
  | returned => "Returned"
  | terminal => "Terminal"

/-- Where an executed instruction leads. -/
inductive Flow where
  | next
  | jump (target : Nat)
  | halt (reason : Halt)
  deriving DecidableEq, Repr

def Width.bytes : Width → Nat
  | word => 3
  | byte => 1

namespace Machine

def setRegister (m : Machine) (register : Register) (value : Nat) : Machine :=
  { m with registers := m.registers.set register value }

/-- Put a number into the accumulator as it is. -/
def withAccumulator (m : Machine) (value : Nat) : Machine :=
  { m with registers := { m.registers with a := value } }

def compareWords (m : Machine) (lhs rhs : Nat) : Machine :=
  { m with registers := m.registers.compareWords lhs rhs }

/-- Read an operand; a failure names its address. -/
@[inline] def operand (m : Machine) (width : Width) (address : Nat) : Except Trap Nat :=
  match m.memory.read width.bytes address with
  | .ok value => .ok value
  | .error cause => .error (.bus address cause)

/-- Carry out an effect whose operand is at `address`. -/
def execute (m : Machine) (effect : Effect) (address : Nat) : Except Trap Flow × Machine :=
  let pc := m.registers.pc
  match effect with
  | .load register width =>
    match m.operand width address with
    | .error t => (.error t, m)
    | .ok value => (.ok .next, m.setRegister register value)
  | .store register width =>
    match m.memory.write width.bytes address (m.registers.get register) with
    | (.error cause, memory) => (.error (.bus address cause), { m with memory })
    | (.ok (), memory) => (.ok .next, { m with memory })
  | .compare register =>
    match m.operand .word address with
    | .error t => (.error t, m)
    | .ok value => (.ok .next, m.compareWords (m.registers.get register) value)
  | .countIndex =>
    let m := m.setRegister .x (m.registers.x + 1)
    match m.operand .word address with
    | .error t => (.error t, m)
    | .ok value => (.ok .next, m.compareWords m.registers.x value)
  | .add =>
    match m.operand .word address with
    | .error t => (.error t, m)
    | .ok value =>
      let sum := Word.signed m.registers.a + Word.signed value
      (.ok .next, m.withAccumulator (Word.ofSigned sum))
  | .subtract =>
    match m.operand .word address with
    | .error t => (.error t, m)
    | .ok value =>
      let difference := Word.signed m.registers.a - Word.signed value
      (.ok .next, m.withAccumulator (Word.ofSigned difference))
  | .jump condition =>
    (.ok (if condition.holds m.registers.outcome? then .jump address else .next), m)
  | .call => (.ok (.jump address), m.setRegister .l (pc + Instruction.size))
  | .leave =>
    (.ok (if m.registers.l = 0 then .halt .returned else .jump m.registers.l), m)
  | .receive =>
    match m.console.readFault, m.console.input with
    | some message, _ => (.error (.device pc message), m)
    | none, [] => (.error (.noInput pc), m)
    | none, b :: rest =>
      (.ok .next, { m.withAccumulator b.toNat with console := { m.console with input := rest } })
  | .send =>
    match m.console.writeFault with
    | some message => (.error (.device pc message), m)
    | none =>
      let output := m.console.output.push m.registers.a.toUInt8
      (.ok .next, { m with console := { m.console with output } })
  | .halt => (.ok (.halt .halted), m)
  | .idle => (.ok .next, m)

/-- Move the program counter from `pc`. -/
def follow (m : Machine) (pc : Nat) : Flow → Machine
  | .next => m.setRegister .pc (pc + Instruction.size)
  | .jump target => m.setRegister .pc target
  | .halt _ => m

/-- The byte of the instruction at `address`. -/
@[inline] def fetchByte (m : Machine) (address : Nat) : Except Trap UInt8 := do
  return (← m.operand .byte address).toUInt8

/-- The three bytes at the program counter. The first that is outside memory names the trap. -/
@[inline] def fetch (m : Machine) : Except Trap (UInt8 × UInt8 × UInt8) := do
  let pc := m.registers.pc
  return (← m.fetchByte pc, ← m.fetchByte (pc + 1), ← m.fetchByte (pc + 2))

/-- The address in an instruction, moved by the index register where the instruction says so. -/
def effectiveAddress (m : Machine) (i : Instruction) : Nat :=
  if i.indexed then Word.wrap (i.address + m.registers.x) else i.address

/-- Execute the instruction at the program counter, and move on. -/
def step (m : Machine) : Except Trap Flow × Machine :=
  let pc := m.registers.pc
  match m.fetch with
  | .error t => (.error t, m)
  | .ok (code, low, high) =>
    match Instruction.decode? [code, low, high] with
    | none => (.error (.unknownOpcode pc code), m)
    | some i =>
      match m.execute i.opcode.effect (m.effectiveAddress i) with
      | (.error t, m') => (.error t, m')
      | (.ok flow, m') => (.ok flow, m'.follow pc flow)

end Machine

end Tribyte
