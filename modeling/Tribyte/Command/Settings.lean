import Tribyte.Memory
import Tribyte.Text.JsonReader

/-! Settings of a simulation, and how a settings file spells them.

The file is a JSON object with the members `memory_size` and `max_steps`, or an array of these two values. The
step limit may be null, and in an object it may be left out; members of other names are ignored. -/
namespace Tribyte.Command

open Text JsonReader

structure Settings where
  memorySize : Nat := Memory.addressSpace
  stepLimit : Option Nat := none
  deriving DecidableEq, Repr

namespace Settings

def memorySize? : Outline → Option Nat
  | .natural n => some n
  | _ => none

/-- The outer option is `none` where the value is no step limit at all. -/
def stepLimit? : Outline → Option (Option Nat)
  | .null => some none
  | .natural n => some (some n)
  | _ => none

/-- Read the members of an object after those already found. No setting is given twice. -/
def ofMembers (size : Option Nat) (limit : Option (Option Nat)) :
    List (Option String × Outline) → Option Settings
  | [] => size.map fun memorySize => { memorySize, stepLimit := limit.join }
  | (none, _) :: _ => none
  | (some key, value) :: rest =>
    if key = "memory_size" then
      match size, memorySize? value with
      | none, some n => ofMembers (some n) limit rest
      | _, _ => none
    else if key = "max_steps" then
      match limit, stepLimit? value with
      | none, some l => ofMembers size (some l) rest
      | _, _ => none
    else ofMembers size limit rest

def ofOutline? : Outline → Option Settings
  | .object members => ofMembers none none members
  | .array [size, limit] => do
    return { memorySize := ← memorySize? size, stepLimit := ← stepLimit? limit }
  | _ => none

def read? (text : String) : Option Settings := (outline? text).bind ofOutline?

end Settings

end Tribyte.Command
