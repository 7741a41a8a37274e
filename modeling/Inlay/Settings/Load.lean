import Inlay.Environment
import Inlay.Error
import Inlay.Settings.Parse

namespace Inlay

namespace Settings

inductive LoadError
  | settings (cause : Error)
  | notFound (path : Path)
  | noConfigDirectory
  deriving DecidableEq, Repr

namespace LoadError

def message : LoadError → String
  | .settings cause => cause.message
  | .notFound path => "Settings file " ++ path.display ++ " not found"
  | .noConfigDirectory => "Config directory not found"

def error : LoadError → Error
  | .settings cause => cause
  | e => .settings e.message

end LoadError

def rejection (position : Position) (text : Bytes) (fault : Fault) : String :=
  fault.message ++ " at line " ++ toString (position text).1 ++ " column " ++ toString (position text).2

def ofText (position : Position) (text : Bytes) : Except Error Settings :=
  match parse text with
  | .ok s => .ok s
  | .error fault => .error (.settings ("Failed to parse settings: " ++ rejection position text fault))

/-- A directory can be opened, but not be read. -/
def ofFile (position : Position) (d : Disk) (path : Path) : Except Error Settings :=
  let parsing := "Failed to parse settings file: "
  match d.read path with
  | .error .isDirectory => .error (.settings (parsing ++ IoError.isDirectory.message))
  | .error cause =>
    .error (.settings ("Failed to open settings file " ++ path.display ++ ": " ++ cause.message))
  | .ok text =>
    match parse text with
    | .ok s => .ok s
    | .error fault => .error (.settings (parsing ++ rejection position text fault))

def localName : String := "fusion-dsl.json"

def pathIn? (env : Environment) (name : String) : Option Path := (env.vars.get? name).map Text.encode

def home? (env : Environment) : Option Path :=
  ((pathIn? env "HOME").filter (!·.isEmpty)).or env.accountHome

/-- Without a home directory there is none, not even one that is named. -/
def configDirectory (env : Environment) : Except LoadError Path :=
  match home? env, (pathIn? env "XDG_CONFIG_HOME").filter Path.isAbsolute with
  | none, _ => .error .noConfigDirectory
  | some _, some directory => .ok directory
  | some home, none => .ok (Path.join home ".config")

def userPath (env : Environment) : Except LoadError Path := do
  .ok (Path.join (Path.join (← configDirectory env) "fusion-dsl-explorer") "settings.json")

inductive Source
  | file (path : Path)
  | defaults
  deriving DecidableEq, Repr

def userFile? (d : Disk) (env : Environment) : Option Path :=
  (userPath env).toOption.filter d.isFile

def implicitSource (d : Disk) (env : Environment) (workingDirectory : Path) : Source :=
  let path := Path.join workingDirectory localName
  if d.isFile path then .file path
  else
    match userFile? d env with
    | some path => .file path
    | none => .defaults

def locate (d : Disk) (env : Environment) (explicit : Option Path) (workingDirectory : Path) :
    Except LoadError Source :=
  match explicit with
  | some path => if d.isFile path then .ok (.file path) else .error (.notFound path)
  | none => .ok (implicitSource d env workingDirectory)

def Source.read (position : Position) (d : Disk) : Source → Except LoadError Settings
  | .file path =>
    match ofFile position d path with
    | .ok s => .ok s
    | .error cause => .error (.settings cause)
  | .defaults => .ok {}

def load (d : Disk) (env : Environment) (explicit : Option Path) : Except LoadError Settings := do
  let source ← locate d env explicit d.workingPath
  source.read env.position d

end Settings

end Inlay
