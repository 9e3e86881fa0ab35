import Tribyte.Instruction.Opcode
import Tribyte.Word

/-! Registers. Each holds a word; the status word holds the outcome of the last comparison. -/
namespace Tribyte

structure Registers where
  a : Nat := 0
  x : Nat := 0
  l : Nat := 0
  pc : Nat := 0
  sw : Nat := 0
  s : Nat := 0
  deriving DecidableEq, Repr

namespace Registers

/-- All clear but the program counter. -/
def reset (pc : Nat) : Registers := { pc := Word.wrap pc }

def get (r : Registers) : Register → Nat
  | .a => r.a
  | .x => r.x
  | .l => r.l
  | .pc => r.pc
  | .sw => r.sw
  | .s => r.s

/-- Store a number as it is, even one that is no word. -/
def poke (r : Registers) (register : Register) (value : Nat) : Registers :=
  match register with
  | .a => { r with a := value }
  | .x => { r with x := value }
  | .l => { r with l := value }
  | .pc => { r with pc := value }
  | .sw => { r with sw := value }
  | .s => { r with s := value }

def set (r : Registers) (register : Register) (value : Nat) : Registers :=
  r.poke register (Word.wrap value)

/-- How the status word records an outcome. -/
def statusCode : Ordering → Nat
  | .eq => 0
  | .lt => 1
  | .gt => 2

/-- The outcome in the status word, if it holds one. -/
def outcome? (r : Registers) : Option Ordering :=
  if r.sw = 0 then some .eq
  else if r.sw = 1 then some .lt
  else if r.sw = 2 then some .gt
  else none

/-- Compare two words in their signed reading. -/
def compareWords (r : Registers) (lhs rhs : Nat) : Registers :=
  { r with sw := statusCode (compare (Word.signed lhs) (Word.signed rhs)) }

end Registers

/-- Whether a jump is taken after a comparison with this outcome. -/
def Condition.holds : Condition → Option Ordering → Bool
  | always, _ => true
  | equal, outcome => outcome = some .eq
  | less, outcome => outcome = some .lt
  | greater, outcome => outcome = some .gt

end Tribyte
