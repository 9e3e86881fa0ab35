/-! Text set in columns. -/
namespace Tribyte.Text.Column

/-- The text with blanks after it up to `width` characters; longer text stays as it is. -/
def left (width : Nat) (s : String) : String := String.ofList (s.toList.rightpad width ' ')

end Tribyte.Text.Column
