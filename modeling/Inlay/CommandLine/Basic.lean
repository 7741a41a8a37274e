import Inlay.CommandLine.Arguments
import Inlay.CommandLine.Dotenv

namespace Inlay

inductive Warning
  | notDirectory (path : Path)
  | aborted (cause : Error)
  deriving DecidableEq, Repr

namespace Warning

def target : Warning → String
  | .notDirectory _ => "fusion_dsl_core::package"
  | .aborted _ => "fusion_dsl_core::controller"

def message : Warning → String
  | .notDirectory path => "configured package path is not a directory path=" ++ path.display
  | .aborted cause => "run aborted: " ++ cause.message

end Warning

def Packages.warnings (p : Packages) (d : Disk) (key : String) : List Warning :=
  ((p.paths.get? key).filter (!d.isDirectory ·)).toList.map .notDirectory

def Explorer.warnings (x : Explorer) (d : Disk) (q : Request) : List Warning :=
  if !x.registry.contains q.dsl then []
  else
    match q.target with
    | .ok (.package key) => x.packages.warnings d key
    | _ => []

namespace CommandLine

/-- What a call prints, what it leaves on the disk and how it ends. Texts of the library that reads arguments and of
an abort are left out. -/
structure Outcome where
  disk : Disk
  stdout : Bytes := []
  warnings : List Warning := []
  /-- The last line of the standard error, if there is something to complain of. -/
  complaint : String := ""
  status : Nat := 0
  deriving DecidableEq

namespace Outcome

/-- The log comes first. It writes a line for each warning, and others if it is asked to. -/
def stderr (log : List Warning → Bytes) (o : Outcome) : Bytes := log o.warnings ++ Text.encode o.complaint

def usageStatus : Nat := 2

def failureStatus : Nat := 1

/-- The status of a program that could not go on at all. -/
def abortStatus : Nat := 101

def usage (d : Disk) : Outcome := { disk := d, status := usageStatus }

def abort (d : Disk) : Outcome := { disk := d, status := abortStatus }

def version (d : Disk) : Outcome := { disk := d, stdout := Text.encode "fusion-dsl-cli 0.1.0\n" }

def failure (d : Disk) (stdout : Bytes) (warnings : List Warning) (e : Error) : Outcome :=
  ⟨d, stdout, warnings, "Error: " ++ e.message ++ "\n", failureStatus⟩

end Outcome

def loadSettings (d : Disk) (env : Environment) (path : Option String) : Except Error Settings :=
  match Settings.load d env (path.map Text.encode) with
  | .ok s => .ok s
  | .error e => .error e.error

def expand (d : Disk) (env : Environment) (s : Settings) (request : Request) (stdin : Bytes) : Outcome :=
  match Explorer.ofSettings env s with
  | .error e => .failure d [] [] e
  | .ok x =>
    let (result, w) := (x.run request).run ⟨d, {}, stdin⟩
    let warnings := x.warnings d request
    match result with
    | .ok _ => { disk := w.disk, stdout := w.output.written, warnings }
    | .error e => .failure w.disk w.output.written (warnings ++ [.aborted e]) e

def list (d : Disk) (env : Environment) (s : Settings) : Outcome :=
  match Registry.ofSettings env s with
  | .error e => .failure d [] [] e
  | .ok r => { disk := d, stdout := Text.encode (String.join (r.identifiers.map (· ++ "\n"))) }

def perform (d : Disk) (env : Environment) (v : Invocation) (stdin : Bytes) : Outcome :=
  match loadSettings d env v.settings with
  | .error e => .failure d [] [] e
  | .ok s =>
    match v.command with
    | .expand request => expand d env s request stdin
    | .list => list d env s

def run (d : Disk) (env : Environment) (arguments : List String) (stdin : Bytes) : Outcome :=
  match Dotenv.complete d env.vars with
  | none => .abort d
  | some vars =>
    match parse vars arguments with
    | .error .usage => .usage d
    | .error .version => .version d
    | .ok v => perform d { env with vars } v stdin

end CommandLine

end Inlay
