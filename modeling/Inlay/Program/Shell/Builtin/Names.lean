import Inlay.Program.Shell.Builtin.Control
import Inlay.Program.Shell.Builtin.System
import Inlay.Program.Shell.Builtin.Text
import Inlay.Program.Shell.Builtin.Variable

namespace Inlay.Program.Shell.Builtin

inductive Target
  | function (body : Command)
  | builtin (b : Builtin)
  | program (path : Octets)
  | missing (e : IoError)

def simple? (name : String) : Option Builtin :=
  let special (run : Invocation → Sh Nat) : Option Builtin := some { run, special := true }
  let regular (run : Invocation → Sh Nat) : Option Builtin := some { run }
  match name with
  | "." => special source
  | ":" => special succeed
  | "[" | "test" => regular test
  | "alias" => regular aliasCommand
  | "bg" | "fg" => regular noJob
  | "break" => special (leaveLoops .leave)
  | "cd" | "chdir" => regular changeDirectory
  | "continue" => special (leaveLoops .again)
  | "echo" => regular echo
  | "eval" => special evaluate
  | "exec" => special replace
  | "exit" => special exit
  | "export" => some { run := markAll true false, special := true, assigning := true }
  | "false" => regular refuse
  | "getopts" => regular getOptions
  | "jobs" => regular jobs
  | "kill" => regular kill
  | "local" => some { run := makeLocal, special := true, assigning := true }
  | "printf" => regular printf
  | "pwd" => regular printDirectory
  | "read" => regular read
  | "readonly" => some { run := markAll false true, special := true, assigning := true }
  | "return" => special leaveFunction
  | "set" => special setCommand
  | "shift" => special shift
  | "times" => special times
  | "trap" => special trap
  | "true" => regular succeed
  | "ulimit" => regular ulimit
  | "umask" => regular umask
  | "unalias" => regular unalias
  | "unset" => special remove
  | "wait" => regular wait
  | _ => none

def lookingNames : List String := ["command", "hash", "type"]

def isNamed (name : String) : Bool := (simple? name).isSome || lookingNames.contains name

def isSpecial (name : String) : Bool := (simple? name).any (·.special)

inductive Telling
  | brief
  | full
  deriving DecidableEq, Repr

def tell (how : Telling) (path : Option Octets) (name : Octets) : Sh Nat := do
  let s ← get
  let text := String.ofList name
  let say (brief full : Octets) : Sh Nat := do
    Sh.writeLine (if how = .brief then brief else name ++ full)
    return 0
  if Token.reservedWords.contains text then return ← say name " is a shell keyword".toList
  if let some value := s.aliases.get? name then
    return ← say ("alias ".toList ++ aliasLine name value) (" is an alias for ".toList ++ value)
  if path.isNone ∧ (s.functions.get? name).isSome then return ← say name " is a shell function".toList
  if isNamed text then
    return ← say name (if isSpecial text then " is a special shell builtin" else " is a shell builtin").toList
  let found ← if name.contains '/' then
      pure (if ((← Sh.process).inspect name).isOk then .ok name else .error IoError.noEntry)
    else Lookup.program (path.getD (← Lookup.searchPath)) name
  match found with
  | .ok p =>
    let known := path.isNone && s.found.contains name
    say p ((if known then " is a tracked alias for " else " is ").toList ++ p)
  | .error _ =>
    if how = .full then Sh.writeLine (name ++ ": not found".toList)
    return 127

def type (i : Invocation) : Sh Nat :=
  i.args.foldlM (fun status name => do return max status (← tell .full none name)) 0

def commandCommand (i : Invocation) : Sh Nat := do
  let (given, rest) ← options "pvV" i.args
  let has (c : Char) : Bool := given.any fun g => g.letter == c
  match rest with
  | name :: _ =>
    if has 'v' ∨ has 'V' then
      tell (if has 'V' then .full else .brief) (if has 'p' then some defaultPath else none) name
    else return 0
  | [] => return 0

def hash (i : Invocation) : Sh Nat := do
  let (given, names) ← options "rv" i.args
  if given.any fun g => g.letter == 'r' then
    modify fun s => { s with found := [] }
    return 0
  names.foldlM (fun status name => do
    let s ← get
    if isNamed (String.ofList name) ∨ (s.functions.get? name).isSome then return status
    match ← Lookup.program (← Lookup.searchPath) name with
    | .ok _ => return status
    | .error e =>
      Sh.warn (name ++ ": ".toList ++ Lookup.reason e)
      return 1) 0

def named? (name : String) : Option Builtin :=
  match name with
  | "command" => some { run := commandCommand }
  | "hash" => some { run := hash }
  | "type" => some { run := type }
  | name => simple? name

def targetOf (path : Octets) (functions : Bool) (name : Octets) : Sh Target := do
  if name.contains '/' then return .program name
  let s ← get
  match if functions then s.functions.get? name else none with
  | some body => return .function body
  | none =>
    match named? (String.ofList name) with
    | some b => return .builtin b
    | none =>
      match ← Lookup.program path name with
      | .ok p =>
        modify fun s => { s with found := name :: s.found }
        return .program p
      | .error e => return .missing e

end Inlay.Program.Shell.Builtin
