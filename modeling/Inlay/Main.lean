import Inlay.CommandLine.Reach
import Inlay.Disk.Create
import Inlay.Program.Executable

namespace Inlay.Main

/-- What has been taken in, and the directories that are in it with all below them. -/
structure Survey where
  disk : Disk
  complete : List String := []

def Survey.put (s : Survey) (path : String) (e : Entry) : Survey :=
  { s with disk := s.disk.make path e }

def entryAt (path : String) : IO.FS.DirEntry := { root := "/", fileName := path }

def kind? (path : String) : IO (Option IO.FS.FileType) := do
  try return some (← (entryAt path).path.symlinkMetadata).type
  catch _ => return none

def namesIn (path : String) : IO (List String) := do
  try return (← (entryAt path).path.readDir).toList.map (·.fileName)
  catch _ => return []

/-- Where a link leads in the end. One that leads in circles is kept as a link to itself, one that
leads nowhere as an empty link. -/
def targetOf (path : String) : IO String := do
  try return (← IO.FS.realPath path).toString
  catch
    | .noFileOrDirectory .. => return ""
    | _ => return path

def below (path name : String) : String := if path = "/" then path ++ name else path ++ "/" ++ name

/-- Takes in what is at a path, together with what a link there leads to and, if `deep` is set, all
that a directory there holds. A file that cannot be read is left out. -/
partial def takeIn (deep : Bool) (s : Survey) (path : String) : IO Survey := do
  if s.complete.contains path then return s
  match ← kind? path with
  | none | some .other => return s
  | some .file =>
    try
      let content ← IO.FS.readBinFile path
      return s.put path (.file Entry.defaultFileMode content.toList)
    catch _ => return s
  | some .symlink =>
    let target ← targetOf path
    let s := s.put path (.link (Text.encode target))
    if target = "" || target = path then return s else takeIn deep s target
  | some .dir =>
    let s := s.put path (.directory Entry.defaultDirectoryMode)
    if deep then
      (← namesIn path).foldlM (fun s name => takeIn true s (below path name))
        { s with complete := path :: s.complete }
    else return s

def reach (deep : Bool) (s : Survey) (path : Path) : IO Survey := do
  let path := Path.join s.disk.workingPath path
  let onTheWay := (CommandLine.Dotenv.ancestors (Path.names path)).tail.reverse
  takeIn deep (← (onTheWay.map fun l => (Disk.pathTo l).display).foldlM (takeIn false) s) path.display

def files (s : Survey) (paths : List Path) : IO Survey := paths.foldlM (reach false) s

def trees (s : Survey) (paths : List Path) : IO Survey := paths.foldlM (reach true) s

def processVars : IO Variables := do
  let text := (← IO.FS.readBinFile "/proc/self/environ").toList
  let assignments := (text.splitOn 0).filterMap fun bytes => do
    let cs := (← Text.decode? bytes).toList
    some (String.ofList (cs.takeWhile (· != '=')), String.ofList ((cs.dropWhile (· != '=')).drop 1))
  return .ofList (assignments.filter fun a => a.1 != "")

def table (path : String) (separator : Char) : IO (List (List String)) := do
  try return (← IO.FS.lines path).toList.map fun line => line.splitOn (String.singleton separator)
  catch _ => return []

def accountHome : IO (Option Path) := do
  let user := (← table "/proc/self/status" '\t').findSome? fun
    | "Uid:" :: user :: _ => some user
    | _ => none
  let homes := (← table "/etc/passwd" ':').filterMap fun
    | [_, _, account, _, _, home, _] => if some account = user then some (Text.encode home) else none
    | _ => none
  return homes.head?

def position : Position := fun text =>
  let fault (n : Nat) : Option Settings.Fault := match Settings.parse (text.take n) with
    | .ok _ => none
    | .error fault => some fault
  let read := text.take (((List.range text.length).find? fun n => fault n = fault text.length).getD text.length)
  let lines := read.splitOn CommandLine.Dotenv.lineBreak
  (lines.length, (lines.getLast?.getD []).length)

def environment : IO Environment := do
  return ⟨← processVars, ← accountHome, Program.launch, fun _ => .willing ".tmp", position⟩

def survey (env : Environment) (arguments : List String) : IO Disk := do
  let here := Path.names (← IO.FS.realPath ".").toString
  let s ← files ⟨{ Disk.empty with workingDirectory := here }, []⟩ [Path.here]
  let s ← files s (CommandLine.variablePaths s.disk)
  let some vars := CommandLine.Dotenv.complete s.disk env.vars | return s.disk
  let env := { env with vars }
  match CommandLine.parse vars arguments with
  | .error _ => return s.disk
  | .ok v =>
    let s ← files s (CommandLine.settingsPaths s.disk env v)
    match CommandLine.loadSettings s.disk env v.settings with
    | .error _ => return s.disk
    | .ok settings =>
      let s ← files s (CommandLine.filePaths v.command)
      return (← trees s (CommandLine.treePaths s.disk settings v.command)).disk

def carryOut (before after : Disk) : IO Unit :=
  (before.changes after).forM fun (l, e) => do
    let path := (Disk.pathTo l).display
    match e with
    | some (.file _ content) =>
      if (before.entry? l).any (!·.isFile) then IO.FS.removeFile path
      IO.FS.writeBinFile path ⟨content.toArray⟩
    | _ => return

def print (stream : IO.FS.Stream) (content : Bytes) : IO Unit := do
  stream.write ⟨content.toArray⟩
  stream.flush

partial def readLine (input : IO.FS.Stream) (line : Bytes) : IO Bytes := do
  match (← input.read 1).toList with
  | [b] => if b = Confirm.newline then return line ++ [b] else readLine input (line ++ [b])
  | _ => return line

def log (env : Environment) (warnings : List Warning) : Bytes :=
  let isOff := env.vars.get? "RUST_LOG" = some "off" || env.vars.get? "RUST_LOG" = some "error"
  if isOff then []
  else warnings.flatMap fun w => Text.encode (" WARN " ++ w.target ++ ": " ++ w.message ++ "\n")

/-- A question comes first in the output, so it is shown before the answer is read. -/
def call (arguments : List String) : IO UInt32 := do
  let env ← environment
  let before ← survey env arguments
  let output ← IO.getStdout
  let question := Text.encode ((CommandLine.question? before env arguments).getD "")
  print output question
  let answer ← if question.isEmpty then pure [] else readLine (← IO.getStdin) []
  let o := CommandLine.run before env arguments answer
  carryOut before o.disk
  print output (o.stdout.drop question.length)
  print (← IO.getStderr) (o.stderr (log env))
  return UInt32.ofNat o.status

end Inlay.Main

def main (arguments : List String) : IO UInt32 := Inlay.Main.call arguments
