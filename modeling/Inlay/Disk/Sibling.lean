import Inlay.Disk.Create
import Inlay.Text.Quoted

namespace Inlay

namespace Path

/-- The shortest beginning of a path that has all its components but the last. -/
def parent (path : Path) : Path :=
  (((List.range (path.length + 1)).map path.take).find? fun p => components p = (components path).dropLast).getD []

def quote (path : Path) : String := Text.quote (display path)

end Path

namespace Disk

/-- The calls of a replacement in their order, and the one that takes the sibling away when they fail. -/
inductive Call
  | look
  | create
  | write
  | sync
  | protect
  | rename
  | remove
  deriving DecidableEq, Repr

/-- What a replacement depends on beside the tree. -/
structure Surroundings where
  /-- The names that are drawn for the sibling, until one is free. -/
  names : List Path
  /-- The calls that the system refuses for reasons of its own, as rights to write or room. -/
  refused : Call → Option IoError
  /-- So much of the content is written before the rest is refused. -/
  room : Nat

def erase (d : Disk) (l : Location) : Disk := { d with entries := d.entries.filter (· != l) }

def setMode (d : Disk) (l : Location) (mode : Nat) : Disk :=
  match d.entry? l with
  | some (.file _ content) => d.put l (.file mode content)
  | _ => d

/-- The absolute path of the directory that siblings of a path are made in. -/
def siblingBase (d : Disk) (path : Path) : Path :=
  Path.join d.workingPath (if Path.parent path = [] then Path.here else Path.parent path)

/-- Makes an empty file under the first name that is free, for its owner only. -/
def makeSibling (d : Disk) (path : Path) : List Path → Except IoError (Location × Disk)
  | [] => .error (.located .tooManySiblings (Path.quote (d.siblingBase path)))
  | name :: names =>
    let sibling := Path.join (d.siblingBase path) name
    match d.place sibling with
    | .error cause => .error (.located cause (Path.quote sibling))
    | .ok l => if (d.entry? l).isSome then d.makeSibling path names else .ok (l, d.put l (.file 0o600 []))

/-- The file at `source` takes the name over, if that does not name a directory. -/
def rename (d : Disk) (source : Location) (path : Path) : Except IoError Disk := do
  let l ← d.place path
  if d.isDirectoryAt l then .error .isDirectory
  else
    match d.entry? source with
    | none => .error .noEntry
    | some e => .ok ((d.erase source).put l e)

namespace Surroundings

/-- Nothing is refused. -/
def willing (name : Path) : Surroundings := ⟨[name], fun _ => none, 0⟩

variable {α : Type}

def attempt (s : Surroundings) (call : Call) (f : Disk → Except IoError (α × Disk)) : ExceptT IoError (StateM Disk) α := do
  match s.refused call, f (← get) with
  | some cause, _ | none, .error cause => throw cause
  | none, .ok (a, d) =>
    set d
    return a

def install (s : Surroundings) (sibling : Location) (mode : Nat) (path : Path) (content : Bytes) :
    ExceptT IoError (StateM Disk) Unit := do
  modify (·.setContent sibling (content.take s.room))
  s.attempt .write fun d => .ok ((), d.setContent sibling content)
  s.attempt .sync fun d => .ok ((), d)
  s.attempt .protect fun d => .ok ((), d.setMode sibling mode)
  s.attempt .rename fun d => (d.rename sibling path).map ((), ·)

def replace (s : Surroundings) (path : Path) (content : Bytes) : ExceptT IoError (StateM Disk) Unit := do
  let mode ← s.attempt .look fun d => (d.mode path).map (·, d)
  let sibling ← s.attempt .create (·.makeSibling path s.names)
  tryCatch (s.install sibling mode path content) fun cause => do
    if s.refused .remove = none then modify (·.erase sibling)
    throw cause

end Surroundings

end Disk

end Inlay
