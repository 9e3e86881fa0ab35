import Tribyte.Text.Hexadecimal
import Tribyte.Text.Invisible

/-! Quoted text for messages: invisible characters are written as escapes, so that the reader can tell
what the text holds. -/
namespace Tribyte.Text.Quoted

/-- A character inside quotes. The quote sign itself and the backslash are escaped, NUL, tab, carriage
return and line feed have short escapes, other invisible characters are written by number. -/
def escape (sign c : Char) : String :=
  if c = '\x00' then "\\0"
  else if c = '\t' then "\\t"
  else if c = '\r' then "\\r"
  else if c = '\n' then "\\n"
  else if c = '\\' || c = sign then String.ofList ['\\', c]
  else if Invisible.holds c then "\\u\x7b" ++ Hexadecimal.lower 1 c.toNat ++ "\x7d"
  else c.toString

def string (s : String) : String := "\"" ++ String.join (s.toList.map (escape '"')) ++ "\""

def char (c : Char) : String := "'" ++ escape '\'' c ++ "'"

/-- Quoted strings between brackets. -/
def list (ss : List String) : String := "[" ++ ", ".intercalate (ss.map string) ++ "]"

end Tribyte.Text.Quoted
