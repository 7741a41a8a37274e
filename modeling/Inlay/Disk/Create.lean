import Inlay.Disk.Basic

namespace Inlay.Disk

/-- Where a file of that path is or would be made: links are followed, one in last place too, even
if it leads to a name that is not there. -/
def creation (d : Disk) (links : Nat) (here : Location) (steps : List Path) : Except IoError Location :=
  match d.follow links here steps with
  | .ok l => .ok l
  | .error .noEntry =>
    match steps.getLast? with
    | none => .error .noEntry
    | some name => do
      if name = [] ∨ name = Path.here ∨ name = Path.above then .error .noEntry
      let directory ← d.follow links here steps.dropLast
      if !d.isDirectoryAt directory then .error .notDirectory
      else if !d.grantsAt .search directory then .error .notPermitted
      else
        match d.entry? (directory ++ [name]), links with
        | some (.link target), links + 1 =>
          if target = [] then .error .noEntry
          else
            d.creation links (if Path.isAbsolute target then [] else directory) (Path.steps target)
        | some (.link _), 0 => .error .tooManyLinks
        | _, _ => .ok (directory ++ [name])
  | .error cause => .error cause
termination_by links

def writable (d : Disk) (path : Path) : Except IoError Location := do
  checkPath path
  if Path.endsInSlash path && (d.locate path).toOption.isNone then .error .isDirectory
  else d.creation maxLinks (d.start path) (Path.steps path)

def content? (d : Disk) (l : Location) : Option Bytes :=
  match d.entry? l with
  | some (.file _ content) => some content
  | _ => none

def setContent (d : Disk) (l : Location) (content : Bytes) : Disk :=
  match d.entry? l with
  | some (.file mode _) => d.put l (.file mode content)
  | _ => d

def makeDirectories (d : Disk) (here : Location) : List Path → Disk × Location
  | [] => (d, here)
  | step :: rest =>
    match d.follow maxLinks here [step] with
    | .ok next => d.makeDirectories next rest
    | .error _ =>
      (d.put (here ++ [step]) (.directory Entry.defaultDirectoryMode)).makeDirectories (here ++ [step]) rest

/-- Makes an entry and the directories above it. A file is written through a link of its name. -/
def make (d : Disk) (path : Path) (e : Entry) : Disk :=
  let names := Path.names path
  let (d, directory) := d.makeDirectories (d.start path) names.dropLast
  match names.getLast? with
  | none => d
  | some name =>
    match e, d.follow maxLinks directory [name] with
    | .link _, _ | .device _, _ | _, .error _ => d.put (directory ++ [name]) e
    | .directory _, .ok _ => d
    | .file .., .ok l => if d.isDirectoryAt l then d else d.put l e

def sameState : Entry → Entry → Bool
  | .file _ a, .file _ b => a == b
  | .directory _, .directory _ => true
  | .link a, .link b => a == b
  | .device a, .device b => a == b
  | _, _ => false

/-- Locations whose state differs, with the new entry or none where it is gone. -/
def changes (before after : Disk) : List (Location × Option Entry) :=
  let gone := before.entries.keys.filter fun l => !after.entries.contains l
  let new := after.entries.entries.filter fun (l, e) =>
    match before.entries.get? l with
    | some old => !sameState old e
    | none => true
  gone.map (·, none) ++ new.map fun (l, e) => (l, some e)

end Inlay.Disk
