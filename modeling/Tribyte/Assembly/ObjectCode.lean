import Tribyte.Assembly.Block
import Tribyte.Assembly.Layout
import Tribyte.Object.Record

/-! Object code: a layout becomes object records.

The order is header, one text record for each block, one modification record for each symbolic address, and
the end record. -/
namespace Tribyte

/-- Bytes of a statement, and the place among them where the load base is to be added. -/
structure ObjectCode where
  bytes : List UInt8
  fixup : Option Nat
  deriving DecidableEq, Repr

/-- The object code of a statement. A symbolic address stands one byte into its instruction. -/
def Statement.objectCode (symbols : SymbolTable) (s : Statement) : Except SourceError ObjectCode :=
  match s.operation, s.payload with
  | .opcode op, .instruction none indexed => .ok ⟨Instruction.pack op.code 0 indexed, none⟩
  | .opcode op, .instruction (some symbol) indexed =>
    match symbols.address? symbol with
    | none => .error (.undefinedSymbol s.line symbol)
    | some address =>
      if Instruction.greatestAddress < address then
        .error (.operand s.line s.mnemonic (.addressTooLarge address symbol))
      else .ok ⟨Instruction.pack op.code address indexed, some (s.location + 1)⟩
  | _, .word value => .ok ⟨LittleEndian.encode 3 value, none⟩
  | _, .bytes bs => .ok ⟨bs, none⟩
  | _, _ => .error (.noObjectCode s.line s.mnemonic)

/-- The address where execution starts: a defined label, else the address that the operand spells, else 0. -/
def Statement.entry (symbols : SymbolTable) (s : Statement) : Except SourceError Nat :=
  match s.payload with
  | .finish symbol address =>
    match symbol.bind symbols.address? with
    | some value => .ok value
    | none =>
      match address, symbol with
      | some value, _ => .ok value
      | none, some name => .error (.undefinedSymbol s.line name)
      | none, none => .ok 0
  | _ => .ok 0

/-- A program between its START and END statements. -/
structure Outline where
  name : String
  start : Nat
  body : List Statement
  last : Statement
  deriving DecidableEq, Repr

namespace Outline

def isBoundary (s : Statement) : Bool :=
  s.operation = .directive .start || s.operation = .directive .finish

def ofStatements : List Statement → Except SourceError Outline
  | first :: second :: third :: rest =>
    let last := (third :: rest).getLast (by simp)
    let body := (second :: third :: rest).dropLast
    match first.payload with
    | .start name start =>
      if last.operation ≠ .directive .finish then .error (.lastNotEnd last.line)
      else
        match body.find? isBoundary with
        | some stray => .error (.misplaced stray.line stray.mnemonic)
        | none => .ok { name, start, body, last }
    | _ => .error (.firstNotStart first.line)
  | statements => .error (.tooFewStatements statements.length)

end Outline

/-- The address of a block: that of its first statement. -/
def blockStart : List Statement → Nat
  | [] => 0
  | s :: _ => s.location

def textRecord (block : List Statement) (codes : List ObjectCode) : Record :=
  .text (blockStart block) (codes.flatMap ObjectCode.bytes)

def fixupRecords (codes : List ObjectCode) : List Record :=
  codes.filterMap fun code => code.fixup.map fun address => .modification address 2

def Layout.records (l : Layout) : Except SourceError (List Record) := do
  let outline ← Outline.ofStatements l.statements.toList
  let blocks := blocks outline.body
  let codes ← blocks.mapM fun block => block.mapM (Statement.objectCode l.symbols)
  let entry ← outline.last.entry l.symbols
  return .header outline.name outline.start l.length :: blocks.zipWith textRecord codes
    ++ fixupRecords codes.flatten ++ [.finish entry]

/-- The object records of a source text. -/
def assemble (text : String) : Except SourceError (List Record) := do
  let layout ← Layout.ofLines (sourceLines text)
  layout.records

end Tribyte
