/-! Names in source text: symbols, and the labels among them. -/
namespace Tribyte

/-- An upper-case letter followed by upper-case letters and digits. -/
def isSymbol (s : String) : Bool :=
  match s.toList with
  | [] => false
  | c :: rest => c.isUpper && rest.all fun d => d.isUpper || d.isDigit

/-- A symbol of at most six characters. Only labels are ever defined, so a longer symbol stays undefined. -/
def isLabel (s : String) : Bool := s.length ≤ 6 && isSymbol s

end Tribyte
