import Inlay.CommandLine.Basic

namespace Inlay.CommandLine

def variablePaths (d : Disk) : List Path :=
  (Dotenv.ancestors d.workingDirectory).map Dotenv.path

def settingsPaths (d : Disk) (env : Environment) (v : Invocation) : List Path :=
  match v.settings with
  | some path => [Text.encode path]
  | none => Path.join d.workingPath Settings.localName :: (Settings.userPath env).toOption.toList

def filePaths : Command → List Path
  | .list => []
  | .expand request =>
    match request.target with
    | .ok (.file path) => [path]
    | _ => []

def commandPaths (d : Disk) : Descriptor → List Path
  | .template .. => []
  | .command .. => [d.workingPath]

def treePaths (d : Disk) (s : Settings) : Command → List Path
  | .list => []
  | .expand request =>
    let packages := match request.target with
      | .ok (.package key) =>
        let p := Packages.ofSettings s
        let places := (p.paths.get? key).toList ++ p.roots
        places ++ places.map (Path.join · p.fusionPath)
      | _ => []
    packages ++ (s.dsl.get? request.dsl).toList.flatMap (commandPaths d)

def question? (d : Disk) (env : Environment) (arguments : List String) : Option String := do
  let vars ← Dotenv.complete d env.vars
  let env := { env with vars }
  let v ← (parse vars arguments).toOption
  let s ← (loadSettings d env v.settings).toOption
  let x ← (Explorer.ofSettings env s).toOption
  match v.command with
  | .list => none
  | .expand request =>
    match request.mode, x.resolve d request with
    | .eject, .ok _ => some (Message.prompt request.dsl)
    | _, _ => none

end Inlay.CommandLine
