import Tribyte.Instruction.Form
import Tribyte.Source.Error
import Tribyte.Source.Name

/-! Statements: what the fields of a line mean.

Of two fields the first is the operation if it names one, otherwise a label. The operation is resolved
before the label is checked, and the label before the operand. -/
namespace Tribyte

open Text

inductive Directive where
  | start | finish | byte | word | reserveBytes | reserveWords
  deriving DecidableEq, Repr

def Directive.ofName? (name : String) : Option Directive :=
  if name = "START" then some start
  else if name = "END" then some finish
  else if name = "BYTE" then some byte
  else if name = "WORD" then some word
  else if name = "RESB" then some reserveBytes
  else if name = "RESW" then some reserveWords
  else none

inductive Operation where
  | opcode (opcode : Opcode)
  | directive (directive : Directive)
  deriving DecidableEq, Repr

def Operation.ofName? (name : String) : Option Operation :=
  match Opcode.ofMnemonic? name with
  | some op => some (.opcode op)
  | none => (Directive.ofName? name).map .directive

/-- What a statement contributes to the program. -/
inductive Payload where
  | instruction (symbol : Option String) (indexed : Bool)
  | word (value : Nat)
  | bytes (bs : List UInt8)
  | start (name : String) (address : Nat)
  /-- An operand such as `BEEF` may be read both as a label and as an address; the label is tried first. -/
  | finish (symbol : Option String) (address : Option Nat)
  | reserve (count unit : Nat)
  deriving DecidableEq, Repr

namespace Payload

/-- Bytes that the statement occupies in memory. -/
def size : Payload → Nat
  | instruction _ _ => Instruction.size
  | word _ => 3
  | bytes bs => bs.length
  | start _ _ | finish _ _ => 0
  | reserve count unit => count * unit

/-- Whether the statement produces object code. -/
def hasCode : Payload → Bool
  | instruction _ _ | word _ | bytes _ => true
  | start _ _ | finish _ _ | reserve _ _ => false

end Payload

structure Statement where
  mnemonic : String
  operation : Operation
  location : Nat
  line : Nat
  label : Option String
  operand : Option String
  payload : Payload
  deriving DecidableEq, Repr

namespace Statement

def size (s : Statement) : Nat := s.payload.size

def hasCode (s : Statement) : Bool := s.payload.hasCode

end Statement

/-! ### Operands -/

/-- A program address as source text writes it: four hexadecimal digits. -/
def readAddress? (text : String) : Option Nat := Hexadecimal.read? 4 text.toList

/-- A count of 32 bits in decimal digits. -/
def readCount? (text : String) : Option Nat :=
  match Numeral.natural? text.toList with
  | some n => if n ≤ Numeral.greatest32 then some n else none
  | none => none

/-- The greatest number of bytes in one literal, and in one block of object code. -/
def blockSize : Nat := 30

namespace Payload

def required : Option String → Except OperandFault String
  | some text => .ok text
  | none => .error .missing

/-- A symbol, with `,X` after it for an indexed address. -/
def ofReference (text : String) : Except OperandFault Payload :=
  let (symbol, indexed) := match dropSuffix? [',', 'X'] text.toList with
    | some cs => (String.ofList cs, true)
    | none => (text, false)
  if isSymbol symbol then .ok (.instruction (some symbol) indexed)
  else .error (.invalidReference text)

def ofStart (label operand : Option String) : Except OperandFault Payload := do
  match label with
  | none => throw .startWithoutName
  | some name =>
    let text ← required operand
    match readAddress? text with
    | some address => return .start name address
    | none => throw (.invalidStart text)

def ofFinish : Option String → Except OperandFault Payload
  | none => .ok (.finish none (some 0))
  | some text =>
    let symbol := if isSymbol text then some text else none
    let address := readAddress? text
    if symbol = none ∧ address = none then .error (.invalidEntry text)
    else .ok (.finish symbol address)

def ofCount (unit : Nat) (operand : Option String) : Except OperandFault Payload := do
  let text ← required operand
  match readCount? text with
  | none => throw (.invalidCount text)
  | some count =>
    if Word.greatest < count * unit then throw (.reservationTooLarge count)
    else return .reserve count unit

def ofWord (operand : Option String) : Except OperandFault Payload := do
  let text ← required operand
  match Literal.word text with
  | .ok value => return .word value
  | .error fault => throw (.literal fault)

def ofBytes (operand : Option String) : Except OperandFault Payload := do
  let text ← required operand
  match Literal.bytes text with
  | .error fault => throw (.literal fault)
  | .ok bs =>
    if 1 ≤ bs.length ∧ bs.length ≤ blockSize then return .bytes bs
    else throw (.byteCount bs.length)

/-- The payload of an operation with this label and operand. -/
def ofOperand (operation : Operation) (label operand : Option String) : Except OperandFault Payload :=
  match operation with
  | .opcode op =>
    match operand with
    | none => if op.needsOperand then .error .missing else .ok (.instruction none false)
    | some text => ofReference text
  | .directive .start => ofStart label operand
  | .directive .finish => ofFinish operand
  | .directive .reserveBytes => ofCount 1 operand
  | .directive .reserveWords => ofCount 3 operand
  | .directive .word => ofWord operand
  | .directive .byte => ofBytes operand

end Payload

/-! ### Fields -/

/-- The fields of a line by their roles. -/
structure Parts where
  label : Option String
  name : String
  operand : Option String
  operation : Operation
  deriving DecidableEq, Repr

namespace Parts

def named (line : Nat) (label : Option String) (name : String) (operand : Option String) :
    Except SourceError Parts :=
  match Operation.ofName? name with
  | some operation => .ok { label, name, operand, operation }
  | none => .error (.unknownOperation line name)

def ofFields (line : Nat) : List String → Except SourceError Parts
  | [name] => named line none name none
  | [first, second] =>
    match Operation.ofName? first with
    | some operation => .ok { label := none, name := first, operand := some second, operation }
    | none => named line (some first) second none
  | [label, name, operand] => named line (some label) name (some operand)
  | fields => .error (.shape line fields)

end Parts

def checkLabel (line : Nat) : Option String → Except SourceError Unit
  | none => .ok ()
  | some label => if isLabel label then .ok () else .error (.invalidLabel line label)

/-- The statement on a line, at `location`. -/
def Statement.parse (fields : List String) (location line : Nat) : Except SourceError Statement := do
  let parts ← Parts.ofFields line fields
  checkLabel line parts.label
  match Payload.ofOperand parts.operation parts.label parts.operand with
  | .error fault => throw (.operand line parts.name fault)
  | .ok payload =>
    return {
      mnemonic := parts.name
      operation := parts.operation
      location
      line
      label := parts.label
      operand := parts.operand
      payload }

end Tribyte
