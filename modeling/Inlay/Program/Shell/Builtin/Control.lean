import Inlay.Program.Shell.Lookup

namespace Inlay.Program.Shell.Builtin

def succeed (_ : Invocation) : Sh Nat := return 0

def refuse (_ : Invocation) : Sh Nat := return 1

def leaveLoops (skip : Nat → Skip) (i : Invocation) : Sh Nat := do
  let n ← match i.args with
    | o :: _ => do
      let n ← number o
      if n = 0 then illegalNumber o else pure n
    | [] => pure 1
  let n := min n (← get).loops
  if n ≠ 0 then modify fun s => { s with skip := some (skip n) }
  return 0

def leaveFunction (i : Invocation) : Sh Nat := do
  let status ← match i.args with
    | o :: _ => number o
    | [] => pure (← get).status
  modify fun s => { s with skip := some .leaveFunction }
  return status

def exit (i : Invocation) : Sh Nat := do
  if let o :: _ := i.args then
    let n ← number o
    modify fun s => { s with leaving := some n }
  throw .exit

def evaluate (i : Invocation) : Sh Nat := do
  if i.args.isEmpty then return 0
  i.host.evaluate i.tested (i.args.intersperse [' ']).flatten

def scriptPath (name : Octets) : Sh Octets := do
  if name.contains '/' then return name
  let p ← Sh.process
  let isFile (path : Octets) : Bool := match p.inspect path with
    | .ok (.file ..) => true
    | _ => false
  match (Lookup.candidates (← Lookup.searchPath) name).find? isFile with
  | some path => return path
  | none => Sh.fail (name ++ ": not found".toList)

def source (i : Invocation) : Sh Nat := do
  match ← operands i.args with
  | [] => return 0
  | name :: _ =>
    let path ← scriptPath name
    match ← Sh.act (Process.openPath path .read) with
    | .error e =>
      let reason := if e = .noEntry ∨ e = .notDirectory then "No such file".toList else e.reason.1.toList
      Sh.fail ("cannot open ".toList ++ path ++ ": ".toList ++ reason)
    | .ok n =>
      let text := (← Sh.act (Process.pull n none)).toOption.getD []
      modify fun s => { s with command := some path }
      i.host.contained text

def replace (i : Invocation) : Sh Nat := do
  match ← operands i.args with
  | [] => return 0
  | args =>
    match ← Lookup.run i.host (← Lookup.searchPath) args with
    | .ok s => throw (.gone s)
    | .error e =>
      Sh.warn (args.headD [] ++ ": ".toList ++ Lookup.reason e)
      Sh.setStatus (Lookup.failedStatus e)
      throw .ended

end Inlay.Program.Shell.Builtin
