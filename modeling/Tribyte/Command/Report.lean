import Tribyte.Command.FileAccess

/-! What a command leaves behind: output, messages, an exit code, and at most one file, which is written
last. -/
namespace Tribyte.Command

/-- A failure and what caused it, the outermost first. -/
structure Failure where
  message : String
  causes : List String := []
  deriving DecidableEq, Repr

namespace Failure

/-- A cause on lines of its own. Further lines of its text are set under the first. -/
def causeLines (lead : String) (cause : String) : String :=
  let margin := String.ofList (List.replicate lead.length ' ')
  lead ++ ("\n" ++ margin).intercalate (cause.splitOn "\n") ++ "\n"

/-- Several causes are numbered. -/
def causeList : List String → String
  | [] => ""
  | [cause] => "\nCaused by:\n" ++ causeLines "    " cause
  | causes =>
    "\nCaused by:\n" ++ String.join (causes.zipIdx.map fun (cause, i) => causeLines s!"    {i}: " cause)

def render (f : Failure) : String := "Error: " ++ f.message ++ "\n" ++ causeList f.causes

end Failure

/-- The last thing that a command does. -/
inductive Ending where
  | done
  | failed (failure : Failure)
  /-- A message that stands alone, with an exit code. -/
  | refused (code : Nat) (message : String)
  /-- Write a file. Where that fails, the reason is reported under `context`, if there is one. -/
  | save (path : String) (content : List UInt8) (context : Option String)
  deriving DecidableEq, Repr

structure Job where
  output : List UInt8 := []
  messages : String := ""
  ending : Ending := .done
  deriving DecidableEq, Repr

/-- What is seen of a command that has ended. -/
structure Outcome where
  code : Nat
  output : List UInt8
  messages : String
  deriving DecidableEq, Repr

namespace Job

def fail (message : String) (causes : List String := []) : Job :=
  { ending := .failed { message, causes } }

/-- The failure of a job to write its file. -/
def saveFailure (context : Option String) (e : FileError) : Failure :=
  match context with
  | some message => { message, causes := [e.message] }
  | none => { message := e.message }

/-- The outcome, given how the writing of a file went. -/
def outcome (job : Job) (saved : Except FileError Unit) : Outcome :=
  let failed := fun f : Failure => (⟨1, job.output, job.messages ++ f.render⟩ : Outcome)
  match job.ending, saved with
  | .done, _ => ⟨0, job.output, job.messages⟩
  | .failed f, _ => failed f
  | .refused code message, _ => ⟨code, job.output, job.messages ++ message⟩
  | .save _ _ _, .ok _ => ⟨0, job.output, job.messages⟩
  | .save _ _ context, .error e => failed (saveFailure context e)

end Job

/-- Read a file, or end with a failure that names it. -/
def readingFile {α : Type} (path : String) (content : Except FileError α) : Except Job α :=
  match content with
  | .ok a => .ok a
  | .error e => .error (.fail ("reading " ++ path) [e.message])

end Tribyte.Command
