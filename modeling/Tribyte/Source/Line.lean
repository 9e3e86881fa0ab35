import Tribyte.Text.Blank

/-! Source lines: comments, quotes and fields.

A line has at most three fields, divided by blanks; the third is all that remains after the first two, so
it may hold blanks itself. A comment runs from `#` to the end of the line, unless the `#` stands inside
quotes. -/
namespace Tribyte

open Text

/-- Where a scan stands with respect to quoted text. A backslash inside quotes protects the next
character. -/
inductive Quoting where
  | outside | inside | guarded
  deriving DecidableEq, Repr

def Quoting.next : Quoting → Char → Quoting
  | guarded, _ => inside
  | inside, c => if c = '\\' then guarded else if c = '\'' then outside else inside
  | outside, c => if c = '\'' then inside else outside

/-- The line up to its comment, for a scan that stands at `q`. -/
def stripComment : (q : Quoting) → List Char → List Char
  | _, [] => []
  | q, c :: rest => if q = .outside ∧ c = '#' then [] else c :: stripComment (q.next c) rest

/-- The text up to the first blank, and what follows the blanks after it. -/
def splitField (cs : List Char) : List Char × List Char :=
  (cs.takeWhile (!isBlank ·), trimStart (cs.dropWhile (!isBlank ·)))

/-- The fields of a text that is free of comments and has no blank at either end. -/
def splitFields (cs : List Char) : List (List Char) :=
  let (first, rest) := splitField cs
  if first = [] then [] else
  let (second, rest) := splitField rest
  if second = [] then [first]
  else if rest = [] then [first, second]
  else [first, second, rest]

/-- The fields of a line, none where it holds only blanks and a comment. -/
def lineFields (line : List Char) : List String :=
  (splitFields (trim (stripComment .outside line))).map String.ofList

/-- The pieces of a text between its line feeds, one more than there are line feeds. -/
def pieces (cs : List Char) : List (List Char) :=
  cs.foldr
    (fun c ps => if c = '\n' then [] :: ps else
      match ps with
      | [] => [[c]]
      | p :: rest => (c :: p) :: rest)
    [[]]

/-- Pieces as lines: a carriage return right before a line feed belongs to the line's end, and nothing
after the last line feed is no line. -/
def closeLines : List (List Char) → List (List Char)
  | [] => []
  | [last] => if last = [] then [] else [last]
  | line :: rest =>
    (if line.getLast? = some '\r' then line.dropLast else line) :: closeLines rest

def textLines (text : String) : List (List Char) := closeLines (pieces text.toList)

/-- A line with at least one field. Lines are counted from 1, those without fields included. -/
structure SourceLine where
  number : Nat
  fields : List String
  deriving DecidableEq, Repr

/-- The lines of a text that have fields. -/
def sourceLines (text : String) : List SourceLine :=
  (textLines text).zipIdx.filterMap fun (line, i) =>
    let fields := lineFields line
    if fields = [] then none else some ⟨i + 1, fields⟩

end Tribyte
