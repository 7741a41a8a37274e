import Inlay.Program.Shell.Evaluate

namespace Inlay.Program

namespace Shell

def maxDepth : Nat := 3000

def initialVariables (p : Process) : List (Octets × Variable) :=
  let given := p.environment.entries.filterMap fun (name, value) =>
    if isName name.toList then some (name.toList, { value := some value, exported := true : Variable }) else none
  let working := Octets.ofBytes p.disk.workingPath
  let named := ((p.environment.get? "PWD").filter fun o =>
    o.head? = some '/' && (p.disk.locate (Octets.toBytes o)).toOption == some p.disk.workingDirectory)
  let own : List (String × Octets) :=
    [("IFS", defaultSeparators), ("OPTIND", ['1']), ("PS1", "# ".toList), ("PS2", "> ".toList),
      ("PS4", "+ ".toList), ("PPID", Octets.ofNat (p.identifier - 1))]
  let start : State := { name := [], bindings := given }
  let start := own.foldl (fun s (name, value) => s.putVariable name.toList { value := some value }) start
  let start := if (p.environment.contains "PATH") then start
    else start.putVariable "PATH".toList { value := some defaultPath }
  (start.putVariable "PWD".toList { value := some (named.getD working), exported := true }).bindings

/-- Sets the options that the arguments start with; the result is whether one of them says that the
commands are an argument, and the arguments after them. -/
def readOptions : (count : Nat) → (commands : Bool) → List Octets → Sh (Bool × List Octets)
  | 0, commands, args => return (commands, args)
  | count + 1, commands, args => do
    let letters (on : Bool) (cs : Octets) (rest : List Octets) : Sh (Bool × List Octets) := do
      let own := cs.filter fun c => c ≠ 'c' && c ≠ 'l'
      readOptions count (commands || cs.contains 'c') (← Builtin.setLetters on own rest)
    match args with
    | ['-'] :: rest | ['-', '-'] :: rest => return (commands, rest)
    | ('-' :: cs) :: rest => letters true cs rest
    | ('+' :: cs) :: rest => letters false cs rest
    | args => return (commands, args)

section

variable (start : Octets → List Octets → Act (Except IoError Status))

def runCommand : Command → Flags → Sh Nat := Evaluate.command start maxDepth

def runScript (text : Octets) : Sh Unit := do
  let _ ← Evaluate.script (runCommand start) {} true Evaluate.maxRounds 0 { text }

def scriptOf (path : Octets) : Sh Octets := do
  match ← Sh.act (Process.openPath path .read) with
  | .ok n => return (← Sh.act (Process.pull n none)).toOption.getD []
  | .error e =>
    let reason := if e = .noEntry ∨ e = .notDirectory then "No such file".toList else e.reason.1.toList
    Sh.fail ("cannot open ".toList ++ path ++ ": ".toList ++ reason)

def inputScript : Sh Octets := do
  match ← Sh.act (Process.stream 0) with
  | .ok n => return (← Sh.act (Process.pull n none)).toOption.getD []
  | .error _ => return []

def run (args : List Octets) : Sh Unit := do
  let setNames (name : Octets) (parameters : List Octets) : Sh Unit :=
    modify fun s => { s with name, parameters }
  let (commands, rest) ← readOptions (args.length + 1) false args
  let fromInput ← Sh.hasOption "stdin"
  match commands, rest with
  | true, [] => Sh.fail "-c requires an argument".toList
  | true, text :: rest =>
    match rest with
    | name :: rest => setNames name rest
    | [] => pure ()
    let _ ← Evaluate.text (runCommand start) { last := !fromInput } text
    if fromInput then runScript start (← inputScript)
  | false, path :: rest =>
    if fromInput then
      modify fun s => { s with parameters := path :: rest }
      runScript start (← inputScript)
    else
      let text ← scriptOf path
      setNames path rest
      runScript start text
  | false, [] =>
    modify fun s => s.setOption "stdin" true
    runScript start (← inputScript)

end

end Shell

def Shell.main (start : Octets → List Octets → Act (Except IoError Status)) (c : Call) : Act Status := do
  let p ← get
  let initial := Shell.initialVariables p
  let directory := ((initial.lookup "PWD".toList).bind (·.value)).getD ['/']
  let state : Shell.State := { name := c.name, bindings := initial, directory, line := 0 }
  let (status, _) ← ((Shell.Evaluate.finish (Shell.runCommand start) (Shell.run start c.args)).run state)
  return status

end Inlay.Program
