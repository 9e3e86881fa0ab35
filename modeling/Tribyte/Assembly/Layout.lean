import Tribyte.Assembly.Symbols
import Tribyte.Source.Line
import Tribyte.Source.Statement

/-! Layout: every statement gets its location, every label its address.

START moves the location counter and stands itself at the counter's old value; any other statement takes
its size. A counter beyond 24 bits is reported before a label that is already defined. -/
namespace Tribyte

structure Layout where
  symbols : SymbolTable := .empty
  statements : Array Statement := #[]
  start : Nat := 0
  counter : Nat := 0

namespace Layout

/-- Bytes from the start address to the location counter, modulo `2 ^ 24`. -/
def length (l : Layout) : Nat := Word.ofSigned (l.counter - l.start)

/-- The start address and location counter after `s`. -/
def advance (l : Layout) (s : Statement) : Except SourceError (Nat × Nat) :=
  match s.payload with
  | .start _ address => .ok (address, address)
  | _ =>
    let counter := l.counter + s.size
    if Word.greatest < counter then .error (.operand s.line s.mnemonic (.counterOverflow counter))
    else .ok (l.start, counter)

def defineLabel (symbols : SymbolTable) (s : Statement) : Except SourceError SymbolTable :=
  match s.label with
  | none => .ok symbols
  | some label =>
    match symbols.define label s.location s.line with
    | (.error e, _) => .error e
    | (.ok (), symbols') => .ok symbols'

/-- The layout with the statement of one more line. -/
def extend (l : Layout) (source : SourceLine) : Except SourceError Layout := do
  let s ← Statement.parse source.fields l.counter source.number
  let (start, counter) ← l.advance s
  let symbols ← defineLabel l.symbols s
  return { symbols, statements := l.statements.push s, start, counter }

def ofLines (lines : List SourceLine) : Except SourceError Layout := lines.foldlM extend {}

end Layout

end Tribyte
