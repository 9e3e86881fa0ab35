import Std.Data.TreeMap
import Tribyte.LittleEndian
import Tribyte.Text.Hexadecimal

/-! Memory: bytes at addresses below a fixed size, all zero at first.

Numbers of any width are stored low byte first, so every width reads the same bytes. An access succeeds
exactly when its last byte is inside (`read`, `writeBytes`), and a failed one leaves the memory as it was. -/
namespace Tribyte

open Text

/-- An access of `length` bytes that does not end inside the memory. -/
structure AccessError where
  length : Nat
  address : Nat
  size : Nat
  deriving DecidableEq, Repr

def AccessError.message (e : AccessError) : String :=
  s!"access of {e.length} byte(s) at " ++ Hexadecimal.marked 6 e.address ++ " exceeds memory size "
    ++ Hexadecimal.marked 6 e.size

/-- The cells are those that have been written; every other byte is zero. -/
structure Memory where
  size : Nat
  cells : Std.TreeMap Nat UInt8 := {}

namespace Memory

/-- Bytes that a 24-bit address can tell apart. -/
def addressSpace : Nat := 0x1000000

def zeroed (size : Nat) : Memory := { size }

def byte (m : Memory) (address : Nat) : UInt8 := m.cells.getD address 0

def bytes (m : Memory) (address : Nat) : (count : Nat) → List UInt8
  | 0 => []
  | count + 1 => m.byte address :: m.bytes (address + 1) count

/-- The bytes from `address` on, at most `count` and none beyond the end. -/
def excerpt (m : Memory) (address count : Nat) : List UInt8 :=
  m.bytes address (min count (m.size - address))

def set (m : Memory) (address : Nat) (b : UInt8) : Memory :=
  { m with cells := m.cells.insert address b }

/-- Put bytes at `address` and after it, whatever the size. -/
def fill (m : Memory) (address : Nat) : List UInt8 → Memory
  | [] => m
  | b :: rest => (m.set address b).fill (address + 1) rest

/-- The number in the `count` bytes at `address`. -/
@[inline] def read (m : Memory) (count address : Nat) : Except AccessError Nat :=
  if address + count ≤ m.size then .ok (LittleEndian.decode (m.bytes address count))
  else .error ⟨count, address, m.size⟩

/-- Write bytes from `address` on. The memory is returned as it is left, also where it refuses them. -/
def writeBytes (m : Memory) (address : Nat) (bs : List UInt8) : Except AccessError Unit × Memory :=
  if address + bs.length ≤ m.size then (.ok (), m.fill address bs)
  else (.error ⟨bs.length, address, m.size⟩, m)

/-- Write the lowest `count` bytes of `value`. -/
def write (m : Memory) (count address value : Nat) : Except AccessError Unit × Memory :=
  m.writeBytes address (LittleEndian.encode count value)

@[simp] theorem byte_zeroed (size address : Nat) : (zeroed size).byte address = 0 := by
  simp [zeroed, byte]

theorem byte_set (m : Memory) (address other : Nat) (b : UInt8) :
    (m.set address b).byte other = if address = other then b else m.byte other := by
  simp [set, byte, Std.TreeMap.getD_insert]

@[simp] theorem size_set (m : Memory) (address : Nat) (b : UInt8) : (m.set address b).size = m.size := rfl

@[simp] theorem size_fill (m : Memory) (address : Nat) (bs : List UInt8) :
    (m.fill address bs).size = m.size := by
  induction bs generalizing m address with
  | nil => rfl
  | cons b rest ih => rw [fill, ih, size_set]

end Memory

end Tribyte
