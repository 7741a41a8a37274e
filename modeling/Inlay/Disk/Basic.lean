import Inlay.Table
import Inlay.Path

namespace Inlay

/-- Why the system refuses to open, read, write, start or replace something. -/
inductive IoError
  | noEntry
  | notExecutable
  | badDescriptor
  | notPermitted
  | busy
  | alreadyThere
  | notDirectory
  | isDirectory
  | illegalSeek
  | noSpace
  | nameTooLong
  | tooManyLinks
  | nulByte
  | nulArgument
  | tooManySiblings
  /-- The fault together with the path of the file that it concerns. -/
  | located (cause : IoError) (path : String)
  deriving DecidableEq, Repr

namespace IoError

def reason : IoError → String × Option Nat
  | .noEntry => ("No such file or directory", some 2)
  | .notExecutable => ("Exec format error", some 8)
  | .badDescriptor => ("Bad file descriptor", some 9)
  | .notPermitted => ("Permission denied", some 13)
  | .busy => ("Device or resource busy", some 16)
  | .alreadyThere => ("File exists", some 17)
  | .notDirectory => ("Not a directory", some 20)
  | .isDirectory => ("Is a directory", some 21)
  | .illegalSeek => ("Illegal seek", some 29)
  | .noSpace => ("No space left on device", some 28)
  | .nameTooLong => ("File name too long", some 36)
  | .tooManyLinks => ("Too many levels of symbolic links", some 40)
  | .nulByte => ("file name contained an unexpected NUL byte", none)
  | .nulArgument => ("nul byte found in provided data", none)
  | .tooManySiblings => ("too many temporary files exist", none)
  | .located cause _ => cause.reason

def message : IoError → String
  | .located cause path => cause.message ++ " at path " ++ path
  | e =>
    match e.reason with
    | (text, some number) => text ++ " (os error " ++ toString number ++ ")"
    | (text, none) => text

end IoError

/-- The names from the root down to an entry, links not followed. -/
abbrev Location := List Path

/-- What can be read and written, but keeps nothing. -/
inductive Device
  | null
  | zero
  | full
  deriving DecidableEq, Repr

namespace Device

def portion : Nat := 0x10000

def content : Device → Bytes
  | .null => []
  | .zero | .full => List.replicate portion 0

end Device

/-- What a process may do with an entry. -/
inductive Right
  | read
  | write
  | search
  deriving DecidableEq, Repr

def Right.bit : Right → Nat
  | .read => 0o400
  | .write => 0o200
  | .search => 0o100

/-- `mode` holds the permission bits. -/
inductive Entry
  | file (mode : Nat) (content : Bytes)
  | directory (mode : Nat)
  | link (target : Path)
  | device (kind : Device)
  deriving DecidableEq, Repr

namespace Entry

def isFile : Entry → Bool
  | .file .. => true
  | _ => false

def isDirectory : Entry → Bool
  | .directory _ => true
  | _ => false

def isLink : Entry → Bool
  | .link _ => true
  | _ => false

def defaultFileMode : Nat := 0o644

def defaultDirectoryMode : Nat := 0o755

def deviceMode : Nat := 0o666

def mode? : Entry → Option Nat
  | .file mode _ | .directory mode => some mode
  | .device _ => some deviceMode
  | .link _ => none

end Entry

/-- The root is a directory without an entry of its own. The entries are those of the user of the process, who may
besides be privileged to pass over the bits. -/
structure Disk where
  entries : Table Location Entry
  workingDirectory : Location
  privileged : Bool := false
  deriving DecidableEq

namespace Disk

def empty : Disk := { entries := .empty, workingDirectory := [] }

def entry? (d : Disk) (l : Location) : Option Entry :=
  if l = [] then some (.directory Entry.defaultDirectoryMode) else d.entries.get? l

def isDirectoryAt (d : Disk) (l : Location) : Bool := (d.entry? l).any Entry.isDirectory

def grants (d : Disk) (r : Right) (e : Entry) : Bool :=
  d.privileged || e.mode?.all fun mode => mode &&& r.bit != 0

def grantsAt (d : Disk) (r : Right) (l : Location) : Bool := (d.entry? l).any (d.grants r)

def put (d : Disk) (l : Location) (e : Entry) : Disk := { d with entries := d.entries.insert l e }

/-- The names in a directory with their entries, in increasing order of the names. -/
def children (d : Disk) (l : Location) : List (Path × Entry) :=
  d.entries.entries.filterMap fun (key, e) =>
    match key.getLast? with
    | some name => if key.dropLast = l then some (name, e) else none
    | none => none

def maxLinks : Nat := 40

def maxNameBytes : Nat := 255

def maxPathBytes : Nat := 4095

def pathTo (l : Location) : Path := Path.slash :: [Path.slash].intercalate l

def workingPath (d : Disk) : Path := pathTo d.workingDirectory

def start (d : Disk) (path : Path) : Location :=
  if Path.isAbsolute path then [] else d.workingDirectory

/-- Follows the steps from `here`, links included; `links` more links may be met on the way. -/
def follow (d : Disk) (links : Nat) (here : Location) : List Path → Except IoError Location
  | [] => .ok here
  | step :: rest =>
    if !d.isDirectoryAt here then .error .notDirectory
    else if step = [] then d.follow links here rest
    else if !d.grantsAt .search here then .error .notPermitted
    else if step = Path.here then d.follow links here rest
    else if step = Path.above then d.follow links here.dropLast rest
    else if maxNameBytes < step.length then .error .nameTooLong
    else
      match d.entry? (here ++ [step]) with
      | none => .error .noEntry
      | some (.link target) =>
        match links with
        | 0 => .error .tooManyLinks
        | links + 1 =>
          if target = [] then .error .noEntry
          else
            d.follow links (if Path.isAbsolute target then [] else here) (Path.steps target ++ rest)
      | some _ => d.follow links (here ++ [step]) rest
termination_by steps => (links, steps.length)

def checkPath (path : Path) : Except IoError Unit :=
  if path.contains 0 then .error .nulByte
  else if path = [] then .error .noEntry
  else if maxPathBytes < path.length then .error .nameTooLong
  else .ok ()

/-- Where a path leads, links followed. -/
def locate (d : Disk) (path : Path) : Except IoError Location := do
  checkPath path
  d.follow maxLinks (d.start path) (Path.steps path)

/-- The entry a path leads to, links followed. -/
def stat (d : Disk) (path : Path) : Except IoError Entry := do
  let l ← d.locate path
  match d.entry? l with
  | some e => .ok e
  | none => .error .noEntry

def isFile (d : Disk) (path : Path) : Bool :=
  match d.stat path with
  | .ok e => e.isFile
  | .error _ => false

def isDirectory (d : Disk) (path : Path) : Bool :=
  match d.stat path with
  | .ok e => e.isDirectory
  | .error _ => false

def mode (d : Disk) (path : Path) : Except IoError Nat := do
  match (← d.stat path).mode? with
  | some mode => .ok mode
  | none => .error .noEntry

def openEntry (d : Disk) (path : Path) : Except IoError Entry := do
  let e ← d.stat path
  if d.grants .read e then .ok e else .error .notPermitted

def read (d : Disk) (path : Path) : Except IoError Bytes := do
  match ← d.openEntry path with
  | .file _ content => .ok content
  | .device kind => .ok kind.content
  | _ => .error .isDirectory

/-- Where an entry of that path is or would be made: links on the way are followed, a link in last
place is not. -/
def place (d : Disk) (path : Path) : Except IoError Location := do
  checkPath path
  match (Path.names path).getLast? with
  | none => .error .busy
  | some name =>
    if name = Path.here ∨ name = Path.above then .error .busy
    else if Path.endsInSlash path then .error .notDirectory
    else
      let directory ← d.follow maxLinks (d.start path) (Path.names path).dropLast
      if !d.isDirectoryAt directory then .error .notDirectory
      else if !d.grantsAt .search directory then .error .notPermitted
      else .ok (directory ++ [name])

end Disk

end Inlay
