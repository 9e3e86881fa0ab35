/-! Files as commands see them: bytes or text behind a path, or a reason why not. -/
namespace Tribyte.Command

/-- Why a file cannot be read or written. -/
inductive FileError where
  | missing
  | notFolder
  | isFolder
  | nameTooLong
  | notText
  | other (message : String)
  deriving DecidableEq, Repr

def FileError.message : FileError → String
  | missing => "No such file or directory (os error 2)"
  | notFolder => "Not a directory (os error 20)"
  | isFolder => "Is a directory (os error 21)"
  | nameTooLong => "File name too long (os error 36)"
  | notText => "stream did not contain valid UTF-8"
  | other message => message

/-- How a command gets at files. -/
abbrev ReadFile := String → Except FileError (List UInt8)

/-- A file as text. -/
def readText (read : ReadFile) (path : String) : Except FileError String := do
  match String.fromUTF8? (← read path).toByteArray with
  | some text => return text
  | none => throw .notText

end Tribyte.Command
