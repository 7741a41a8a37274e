import Inlay.Confirm
import Inlay.Diff.Unified
import Inlay.Expansion
import Inlay.Package

namespace Inlay

inductive Mode
  | simulate
  | eject
  deriving DecidableEq, Repr

def Mode.name : Mode → String
  | .simulate => "simulate"
  | .eject => "eject"

structure Request where
  dsl : String
  packageKey : Option String
  fusionFile : Option Path
  mode : Mode
  presentation : Presentation
  deriving DecidableEq, Repr

inductive Target
  | package (key : String)
  | file (path : Path)
  deriving DecidableEq, Repr

namespace Request

/-- An empty value counts as a missing one. -/
def target (q : Request) : Except Error Target :=
  match q.packageKey.filter (!·.isEmpty), q.fusionFile.filter (!·.isEmpty) with
  | some key, none => .ok (.package key)
  | none, some path => .ok (.file path)
  | _, _ => .error .invalidTargetSelection

end Request

structure Report where
  mode : Mode
  dsl : String
  filesScanned : Nat
  changedFiles : List Path
  deriving DecidableEq, Repr

/-- Where output goes. A write that would go beyond the limit fails as a whole and leaves nothing. -/
structure Output where
  written : Bytes := []
  limit : Option Nat := none
  deriving DecidableEq, Repr

namespace Output

def accepts (o : Output) (text : Bytes) : Bool :=
  o.limit.all fun limit => o.written.length + text.length ≤ limit

def write (o : Output) (text : String) : Option Output :=
  let bytes := Text.encode text
  if o.accepts bytes then some { o with written := o.written ++ bytes } else none

end Output

/-- What a run changes: the disk, the output and the input still to be read. -/
structure World where
  disk : Disk
  output : Output
  input : Bytes
  deriving DecidableEq

abbrev Step := ExceptT Error (StateM World)

namespace Step

def emit (text : String) : Step Unit := do
  match (← get).output.write text with
  | some o => modify fun w => { w with output := o }
  | none => throw (.internal "Failed to write output: output is full")

def readAnswer : Step String := do
  let (answer, rest) := Confirm.readAnswer (← get).input
  modify fun w => { w with input := rest }
  match answer with
  | .ok line => return line
  | .error fault => throw (.internal ("Failed to read confirmation: " ++ fault.message))

def onDisk {α : Type} (k : ExceptT Error (StateM Disk) α) : Step α := do
  let (result, d) := k.run (← get).disk
  modify fun w => { w with disk := d }
  MonadExcept.ofExcept result

end Step

def readText (d : Disk) (path : Path) : Except Error String :=
  match d.read path with
  | .error cause => .error (.readFailure path (.io cause))
  | .ok bytes =>
    match Text.decode? bytes with
    | some text => .ok text
    | none => .error (.readFailure path .notUtf8)

namespace Message

def prompt (dsl : String) : String :=
  "This command will expand all " ++ dsl ++ "`...` expressions\n" ++
    "Are you sure you want to do this?  Type 'yes' to continue: \n"

def declined : String := "exit\n"

def simulated (dsl : String) (file : Path) : String :=
  "\nSimulate Fusion-DSL \"" ++ dsl ++ "\" for file " ++ file.display ++ "\n\n"

def ejected (dsl : String) (file : Path) : String :=
  "\nEjected Fusion-DSL \"" ++ dsl ++ "\" from file " ++ file.display ++ "\n"

end Message

structure Explorer where
  registry : Registry
  packages : Packages
  surroundings : Path → Disk.Surroundings
  presenter : Presenter := {}
  fileExtension : String := "fusion"

namespace Explorer

def ofSettings (env : Environment) (s : Settings) : Except Error Explorer := do
  let registry ← Registry.ofSettings env s
  .ok ⟨registry, Packages.ofSettings s, env.surroundings, {}, s.fileExtension⟩

def files (x : Explorer) (d : Disk) : Target → Except Error (List Path)
  | .package key => do
    let directory ← x.packages.fusionDirectory d key
    listFiles d directory x.fileExtension
  | .file path => if d.isFile path then .ok [path] else .error (.fileNotFound path)

def confirm (dsl : String) : Step Unit := do
  Step.emit (Message.prompt dsl)
  let answer ← Step.readAnswer
  if !Confirm.isConfirmed answer then
    Step.emit Message.declined
    throw (.confirmationDeclined dsl)

/-- Shows or writes what becomes of one file; tells whether there was anything to expand. -/
def processFile (x : Explorer) (q : Request) (file : Path) : Step Bool := do
  let text ← MonadExcept.ofExcept (readText (← get).disk file)
  let expansion ← Step.onDisk (x.registry.expand text q.dsl)
  if !expansion.changed then return false
  match q.mode with
  | .simulate =>
    Step.emit (Message.simulated q.dsl file)
    Step.emit (x.presenter.render text expansion.content q.presentation)
  | .eject =>
    Step.onDisk (persist (x.surroundings file) file expansion.content)
    Step.emit (Message.ejected q.dsl file)
    if q.presentation = .diff then
      Step.emit "\n"
      Step.emit (x.presenter.diff text expansion.content)
  return true

/-- Processes files in their order; the result lists those that had something to expand. -/
def processFiles (x : Explorer) (q : Request) : List Path → Step (List Path)
  | [] => return []
  | file :: files => do
    let changed ← x.processFile q file
    let rest ← x.processFiles q files
    return if changed then file :: rest else rest

/-- The files of a request. Nothing is read from them, written or asked for this. -/
def resolve (x : Explorer) (d : Disk) (q : Request) : Except Error (List Path) := do
  if !x.registry.contains q.dsl then .error (.unknownIdentifier q.dsl)
  else
    let target ← q.target
    x.files d target

def run (x : Explorer) (q : Request) : Step Report := do
  let files ← MonadExcept.ofExcept (x.resolve (← get).disk q)
  if q.mode = .eject then confirm q.dsl
  let changed ← x.processFiles q files
  return ⟨q.mode, q.dsl, files.length, changed⟩

end Explorer

end Inlay
