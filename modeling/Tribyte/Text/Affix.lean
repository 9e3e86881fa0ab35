/-! Text without a given ending. -/
namespace Tribyte.Text

/-- The text before `ending`, where the text ends with it. -/
def dropSuffix? (ending cs : List Char) : Option (List Char) :=
  if ending.isSuffixOf cs then some (cs.take (cs.length - ending.length)) else none

end Tribyte.Text
