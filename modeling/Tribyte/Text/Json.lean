import Tribyte.Text.Hexadecimal

/-! JSON documents, printed with one item on a line and two blanks for each level. -/
namespace Tribyte.Text

inductive Json where
  | null
  | number (n : Nat)
  | string (s : String)
  | array (items : List Json)
  | object (members : List (String × Json))

namespace Json

/-- A character inside a string. Only quotes, backslashes and control characters below the space are
escaped. -/
def escape (c : Char) : String :=
  if c = '"' then "\\\""
  else if c = '\\' then "\\\\"
  else if c = '\x08' then "\\b"
  else if c = '\t' then "\\t"
  else if c = '\n' then "\\n"
  else if c = '\x0c' then "\\f"
  else if c = '\r' then "\\r"
  else if c < ' ' then "\\u" ++ Hexadecimal.lower 4 c.toNat
  else c.toString

def quote (s : String) : String := "\"" ++ String.join (s.toList.map escape) ++ "\""

/-- Lines between an opening and a closing sign, at `level`. -/
def enclose (opening closing : String) (level : Nat) (lines : List String) : String :=
  let margin := fun n => "\n" ++ String.ofList (List.replicate (2 * n) ' ')
  if lines = [] then opening ++ closing
  else
    opening ++ margin (level + 1) ++ ("," ++ margin (level + 1)).intercalate lines ++ margin level
      ++ closing

mutual

def printAt (level : Nat) : Json → String
  | null => "null"
  | number n => toString n
  | string s => quote s
  | array items => enclose "[" "]" level (printItems (level + 1) items)
  | object members => enclose "\x7b" "\x7d" level (printMembers (level + 1) members)

def printItems (level : Nat) : List Json → List String
  | [] => []
  | item :: rest => printAt level item :: printItems level rest

def printMembers (level : Nat) : List (String × Json) → List String
  | [] => []
  | (key, value) :: rest => (quote key ++ ": " ++ printAt level value) :: printMembers level rest

end

def print (document : Json) : String := printAt 0 document

end Json

end Tribyte.Text
