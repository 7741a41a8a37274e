import Inlay.Program.Shell.Builtin.Basic
import Inlay.Program.Shell.Signal

namespace Inlay.Program.Shell.Lookup

/-- The paths that a name may stand for: itself if there is a slash in it, else one in each of the
directories that programs are looked for in. -/
def candidates (path name : Octets) : List Octets :=
  if name.contains '/' then [name]
  else (Octets.splitAt ':' path).map fun d => if d.isEmpty then name else d ++ '/' :: name

def searchPath : Sh Octets := return (← Sh.lookup "PATH").getD defaultPath

def reason : IoError → Octets
  | .noEntry | .notDirectory => "not found".toList
  | e => e.reason.1.toList

def locate (p : Process) (error : IoError) : List Octets → Except IoError Octets
  | [] => .error error
  | path :: rest =>
    match p.inspect path with
    | .ok (.file mode _) => if mode &&& 0o111 ≠ 0 then .ok path else locate p .notPermitted rest
    | .ok _ => locate p .notPermitted rest
    | .error e => locate p (if e = .noEntry ∨ e = .notDirectory then error else e) rest

def program (path name : Octets) : Sh (Except IoError Octets) := do
  if name.contains '/' then return .ok name
  return locate (← Sh.process) .noEntry (candidates path name)

def shellPath : Octets := "/bin/sh".toList

def startAt (host : Host) (path : Octets) (args : List Octets) : Act (Except IoError Status) := do
  match ← host.start path args with
  | .error .notExecutable => host.start shellPath (shellPath :: path :: args.drop 1)
  | result => return result

def startFirst (host : Host) (args : List Octets) (error : IoError) : List Octets → Act (Except IoError Status)
  | [] => return .error error
  | path :: rest => do
    match ← startAt host path args with
    | .ok s => return .ok s
    | .error e => startFirst host args (if e = .noEntry ∨ e = .notDirectory then error else e) rest

def failedStatus : IoError → Nat
  | .noEntry | .notDirectory | .tooManyLinks | .nameTooLong => 127
  | _ => 126

def run (host : Host) (path : Octets) (args : List Octets) : Sh (Except IoError Status) := do
  let s ← get
  let p ← Sh.process
  let silent := s.traps.entries.filterMap fun (n, action) => if action.isEmpty then some n else none
  let child : Process :=
    { p with environment := s.environment, identifier := p.identifier + 1, ignored := p.ignored ++ silent }
  let name := args.headD []
  let (result, after) := (startFirst host args .noEntry (candidates path name)).run child
  Sh.act (set (p.resume after))
  return result

end Inlay.Program.Shell.Lookup
