import Inlay.Program.Shell.Expand

namespace Inlay.Program.Shell

inductive Prepared
  | file (descriptor : Nat) (how : Opening) (path : Octets)
  | copy (descriptor : Nat) (source : Option Nat)
  | document (descriptor number : Nat)

namespace Prepared

def descriptor : Prepared → Nat
  | .file d _ _ | .copy d _ | .document d _ => d

end Prepared

namespace Redirection

section

variable (run : Option Command → Sh Octets)

def prepare : Redirect → Sh Prepared
  | .file d how name => do return .file d how (← Expand.text run { tilde := true } name)
  | .copy d source => do
    match ← Expand.text run { tilde := true } source with
    | ['-'] => return .copy d none
    | [c] =>
      if c.isDigit then return .copy d (some (Octets.digit c))
      Sh.failSyntax ⟨(← get).readLine, "Bad fd number"⟩
    | _ => Sh.failSyntax ⟨(← get).readLine, "Bad fd number"⟩
  | .document d number => return .document d number

def reason (creates : Bool) (e : IoError) : Octets :=
  match e with
  | .noEntry | .notDirectory => (if creates then "Directory nonexistent" else "No such file").toList
  | e => e.reason.1.toList

def failPath {α : Type} (creates : Bool) (path : Octets) (e : IoError) : Sh α :=
  Sh.fail ((if creates then "cannot create " else "cannot open ").toList ++ path ++ ": ".toList ++
    reason creates e)

def guarded (path : Octets) : Sh (Except IoError Process.Access) := do
  match (← Sh.process).inspect path with
  | .error _ => return .ok .create
  | .ok (.file ..) => return .error .alreadyThere
  | .ok _ => return .ok .append

def access (how : Opening) (path : Octets) : Sh (Except IoError Process.Access) := do
  match how with
  | .read => return .ok .read
  | .append => return .ok .append
  | .update => return .ok .update
  | .overwrite => return .ok .write
  | .write => if ← Sh.hasOption "noclobber" then guarded path else return .ok .write

def openFile (how : Opening) (path : Octets) : Sh Nat := do
  let creates : Bool := how ≠ .read
  match ← access how path with
  | .error e => failPath creates path e
  | .ok a =>
    match ← Sh.act (Process.openPath path a) with
    | .ok n => return n
    | .error e => failPath creates path e

def textStream (o : Octets) : Act Nat := do
  let n ← Process.addPipe o
  Process.addStream { channel := .pipe n, reads := true, writes := false }

def apply : Prepared → Sh Unit
  | .file d how path => do
    let n ← openFile how path
    Sh.act (Process.attach d n)
  | .copy d none => Sh.act (Process.detach d)
  | .copy d (some source) => do
    if d ≠ source then
      match ← Sh.act (Process.stream source) with
      | .ok n => Sh.act (Process.attach d n)
      | .error e => Sh.fail (Octets.ofNat source ++ ": ".toList ++ e.reason.1.toList)
  | .document d number => do
    let word := (← get).documents[number]?.getD []
    let text ← Expand.text run { quoted := true } word
    let n ← Sh.act (textStream text)
    Sh.act (Process.attach d n)

def current (ps : List Prepared) : Sh (List (Nat × Option Nat)) := do
  let table := (← Sh.process).descriptors
  return ps.map fun p => (p.descriptor, table.get? p.descriptor)

def putBack (before : List (Nat × Option Nat)) : Sh Unit :=
  Sh.act (before.forM fun (d, n) =>
    match n with
    | some n => Process.attach d n
    | none => Process.detach d)

/-- Applies redirections one after the other; a fault is told, and the result is whether there was
none. -/
def applyAll (ps : List Prepared) : Sh Bool := do
  try
    ps.forM (apply run)
    return true
  catch
    | .fault => return false
    | e => throw e

end

end Redirection

end Inlay.Program.Shell
