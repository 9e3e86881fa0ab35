import Tribyte.Instruction.Form
import Tribyte.Memory
import Tribyte.Object.Image

/-! Loading: object records are placed in memory, and the load base is added to the fields that
modification records name.

The header comes first and is checked against the memory's size; the first end record closes the program, and
what follows it is ignored. A record that fails writes nothing, but earlier ones stay written. -/
namespace Tribyte

open Text

/-- A program in memory. All addresses have the base added. -/
structure Program where
  name : String
  base : Nat
  /-- Address of the first byte. -/
  origin : Nat
  /-- Where execution starts. -/
  entry : Nat
  /-- One past the last byte. -/
  terminal : Nat
  deriving DecidableEq, Repr

inductive LoadError where
  | missingHeader (kind : String)
  | duplicateHeader
  | missingEnd
  | tooLarge (name : String) (terminal size : Nat)
  | relocationOverflow (address value limit : Nat)
  | outOfBounds (address length : Nat) (cause : AccessError)
  deriving DecidableEq, Repr

def LoadError.message : LoadError → String
  | missingHeader kind => kind ++ " record appears before the header record"
  | duplicateHeader => "object program has more than one header record"
  | missingEnd => "object program has no end record"
  | tooLarge name terminal size =>
    "program " ++ name ++ " ends at " ++ Hexadecimal.marked 6 terminal ++ ", beyond memory size "
      ++ Hexadecimal.marked 6 size
  | relocationOverflow address value limit =>
    "relocated value " ++ Hexadecimal.marked 1 value ++ " at " ++ Hexadecimal.marked 6 address
      ++ " does not fit in field limit " ++ Hexadecimal.marked 1 limit
  | outOfBounds address length _ =>
    s!"write of {length} byte(s) at " ++ Hexadecimal.marked 6 address ++ " is outside memory"

def LoadError.cause? : LoadError → Option AccessError
  | outOfBounds _ _ cause => some cause
  | _ => none

/-- Sums of addresses are taken in 32 bits. -/
def wrapAddress (n : Nat) : Nat := n % 0x100000000

/-! ### Relocation -/

/-- The field of `count` bytes at `address`, read from its highest byte down, below what is already read. -/
def readDown (m : Memory) (address : Nat) : (count high : Nat) → Except AccessError Nat
  | 0, high => .ok high
  | i + 1, high =>
    match m.read 1 (wrapAddress (address + i)) with
    | .ok b => readDown m address i (256 * high + b)
    | .error e => .error e

/-- The longest field that is relocated; longer ones are cut. -/
def fieldLimit : Nat := 8

/-- The greatest number that a field may hold. The address field of an instruction leaves its top bit to
the index flag. -/
def greatestInField (length : Nat) : Nat :=
  if length = Instruction.fieldSize then Instruction.greatestAddress else LittleEndian.bound length - 1

/-- Add `delta` to the field of `length` bytes at `address`; bits above the field's greatest number stay. -/
def relocate (m : Memory) (address length delta : Nat) : Except LoadError Unit × Memory :=
  match readDown m address length 0 with
  | .error cause => (.error (.outOfBounds address length cause), m)
  | .ok value =>
    let limit := greatestInField length
    let low := value % (limit + 1)
    if limit < low + delta then
      (.error (.relocationOverflow address ((low + delta) % LittleEndian.bound fieldLimit) limit), m)
    else
      match m.write length address (value - low + (low + delta)) with
      | (.error cause, m') => (.error (.outOfBounds address length cause), m')
      | (.ok (), m') => (.ok (), m')

/-! ### Records -/

/-- Write what one record asks for. -/
def place (base : Nat) (m : Memory) : Record → Except LoadError Unit × Memory
  | .text start payload =>
    let address := wrapAddress (base + start)
    match m.writeBytes address payload with
    | (.error cause, m') => (.error (.outOfBounds address payload.length cause), m')
    | (.ok (), m') => (.ok (), m')
  | .modification address length =>
    relocate m (wrapAddress (base + address)) (min length.toNat fieldLimit) base
  | .header _ _ _ | .finish _ => (.ok (), m)

/-- Load the records after a header. The memory is returned as it is left, also where loading fails. -/
def loadBody (program : Program) (m : Memory) : List Record → Except LoadError Program × Memory
  | [] => (.error .missingEnd, m)
  | .header _ _ _ :: _ => (.error .duplicateHeader, m)
  | .finish entry :: _ => (.ok { program with entry := wrapAddress (program.base + entry) }, m)
  | r :: rest =>
    match place program.base m r with
    | (.error e, m') => (.error e, m')
    | (.ok (), m') => loadBody program m' rest

/-- Load records at `base`. -/
def load (m : Memory) (records : List Record) (base : Nat) : Except LoadError Program × Memory :=
  match records with
  | [] => (.error .missingEnd, m)
  | .header name start length :: rest =>
    let terminal := base + start + length
    if m.size < terminal then (.error (.tooLarge name terminal m.size), m)
    else
      loadBody
        { name, base, origin := base + start, entry := 0, terminal := wrapAddress terminal } m rest
  | r :: _ => (.error (.missingHeader r.kind), m)

/-- Load the records of an image. -/
def loadImage (m : Memory) (image : List UInt8) (base : Nat) : Except LoadError Program × Memory :=
  load m (decodeImage image) base

end Tribyte
