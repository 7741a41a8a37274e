import Inlay.Environment
import Inlay.Settings.Basic
import Inlay.Text.Character

namespace Inlay

inductive TranspileError
  | spawn (program : String) (cause : IoError)
  | io (program : String) (cause : IoError)
  | commandFailed (program : String) (status : Program.Status) (stderr : String)
  | invalidOutput (program : String)
  deriving DecidableEq, Repr

namespace TranspileError

def ofFault (program : String) : Program.Fault → TranspileError
  | .spawn cause => .spawn program cause
  | .io cause => .io program cause

def message : TranspileError → String
  | .spawn program cause => "failed to start `" ++ program ++ "`: " ++ cause.message
  | .io program cause => "I/O error while talking to `" ++ program ++ "`: " ++ cause.message
  | .commandFailed program status stderr =>
    "`" ++ program ++ "` exited with " ++ status.message ++ ": " ++ stderr
  | .invalidOutput program => "`" ++ program ++ "` produced output that is not UTF-8"

end TranspileError

/-- What is done to the disk before a failure stays done. -/
abbrev Transpiling := ExceptT TranspileError (StateM Disk)

abbrev Transpiler := String → Transpiling String

namespace Transpiler

/-- It gives the same answer wherever it is asked, and leaves the disk as it is. -/
def IsPure (t : Transpiler) : Prop :=
  ∃ answer : String → Except TranspileError String, ∀ code d, (t code).run d = (answer code, d)

def ofTemplate (template : String) (e : Escape) : Transpiler := fun code =>
  return Template.expand template e code

theorem isPure_ofTemplate (template : String) (e : Escape) : IsPure (ofTemplate template e) :=
  ⟨fun code => .ok (Template.expand template e code), fun _ _ => rfl⟩

def chomp (text : String) : String :=
  match text.toList.reverse with
  | '\n' :: '\r' :: rest => String.ofList rest.reverse
  | '\n' :: rest => String.ofList rest.reverse
  | _ => text

def readOutcome (program : String) (trimTrailingNewline : Bool) (o : Program.Outcome) :
    Except TranspileError String :=
  if !o.status.isSuccess then
    .error (.commandFailed program o.status (Text.trim (String.ofList (Text.decodeLossy o.stderr))))
  else
    match Text.decode? o.stdout with
    | none => .error (.invalidOutput program)
    | some text => .ok (if trimTrailingNewline then chomp text else text)

def ofCommand (env : Environment) (program : String) (args : List String) (trimTrailingNewline : Bool) :
    Transpiler := fun code => do
  let o ← (env.launch env.vars program args (Text.encode code)).adapt (.ofFault program)
  MonadExcept.ofExcept (readOutcome program trimTrailingNewline o)

end Transpiler

def Descriptor.transpiler (env : Environment) : Descriptor → Transpiler
  | .template text escape => .ofTemplate text escape
  | .command program args trimTrailingNewline => .ofCommand env program args trimTrailingNewline

end Inlay
