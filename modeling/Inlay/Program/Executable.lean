import Inlay.Program.Cat
import Inlay.Program.WordCount
import Inlay.Program.Format
import Inlay.Program.Head
import Inlay.Program.Shell
import Inlay.Program.StreamEditor
import Inlay.Program.Translate

namespace Inlay.Program

def mark : Bytes := [0x7F, 0x45, 0x4C, 0x46]

def programOf? (content : Bytes) : Option String :=
  if mark.isPrefixOf content then Text.decode? (content.drop mark.length) else none

abbrev Starter := Octets → List Octets → Act (Except IoError Status)

namespace Tool

def assignment? (o : Octets) : Option (String × Octets) :=
  let name := o.takeWhile (· ≠ '=')
  match o.drop name.length with
  | _ :: value => some (String.ofList name, value)
  | [] => none

def environmentChoices : List Choice :=
  [⟨"i", some 'i', some "ignore-environment", .nothing⟩, ⟨"u", some 'u', some "unset", .value⟩,
    ⟨"0", some '0', some "null", .nothing⟩, ⟨"C", some 'C', some "chdir", .value⟩,
    ⟨"S", some 'S', some "split-string", .value⟩]

def programPaths (path : Option Octets) (name : Octets) : List Octets :=
  if name.contains '/' then [name]
  else
    (Octets.splitAt ':' (path.getD "/bin:/usr/bin".toList)).map fun d =>
      if d.isEmpty then name else d ++ '/' :: name

def startAmong (start : Starter) (args : List Octets) (error : IoError) : List Octets → Act (Except IoError Status)
  | [] => return .error error
  | path :: rest => do
    match ← start path args with
    | .error .notPermitted => startAmong start args .notPermitted rest
    | .error .noEntry | .error .notDirectory => startAmong start args error rest
    | result => return result

def startNamed (start : Starter) (args : List Octets) : Act (Except IoError Status) := do
  let name := args.headD []
  if name.isEmpty then return .error .noEntry
  if !name.contains '/' ∧ Disk.maxNameBytes < name.length then return .error .nameTooLong
  startAmong start args .noEntry (programPaths ((← get).environment.get? "PATH") name)

def env (start : Starter) (c : Call) : Act Status := do
  let split (args : List Octets) : List Octets :=
    match args with
    | ('-' :: 'S' :: text) :: rest => ((Octets.splitAt ' ' text).filter (!·.isEmpty)) ++ rest
    | args => args
  match Arguments.read environmentChoices false (split c.args) with
  | .error text =>
    complain c (text ++ hint c)
    return .exited 125
  | .ok a =>
    let p ← get
    let kept := if a.has "i" ∨ a.operands.head? = some ['-'] then .empty else p.environment
    let kept := a.given.foldl (fun t (key, name) =>
      if key == "u" then t.filter (· ≠ String.ofList name) else t) kept
    let operands := if a.operands.head? = some ['-'] then a.operands.drop 1 else a.operands
    let assigned := operands.takeWhile fun o => o.contains '='
    let environment := assigned.foldl (fun t o =>
      match assignment? o with
      | some (name, value) => t.insert name value
      | none => t) kept
    match operands.drop assigned.length with
    | [] =>
      let stop : Char := if a.has "0" then '\x00' else '\n'
      let lines := environment.entries.map fun (name, value) => name.toList ++ '=' :: value ++ [stop]
      return .exited (← print c lines.flatten 0)
    | args =>
      set { p with environment }
      match ← startNamed start args with
      | .ok s => return s
      | .error e =>
        complain c (Quoting.named (args.headD []) ++ ": ".toList ++ reason e)
        return .exited (if e = .noEntry then 127 else 126)

end Tool

namespace Executable

def tool? (name : String) : Option Tool :=
  match name with
  | "cat" => some .cat
  | "false" => some .refuse
  | "head" => some .head
  | "printf" => some .printf
  | "sed" => some .sed
  | "tr" => some .tr
  | "true" => some .succeed
  | "wc" => some .wc
  | _ => none

def maxLine : Nat := 255

def isBlank (c : Char) : Bool := c = ' ' || c = '\t'

def interpreter? (content : Octets) : Option (Octets × List Octets) :=
  match content with
  | '#' :: '!' :: rest =>
    let line := ((rest.take maxLine).takeWhile (· ≠ '\n')).dropWhile isBlank
    let name := line.takeWhile (!isBlank ·)
    let argument := (((line.drop name.length).dropWhile isBlank).reverse.dropWhile isBlank).reverse
    some (name, if argument.isEmpty then [] else [argument])
  | _ => none

def contentAt (d : Disk) (path : Octets) : Except IoError Bytes := do
  let l ← d.locate (Octets.toBytes path)
  match d.entry? l with
  | some (.file mode content) => if mode &&& 0o111 ≠ 0 then .ok content else .error .notPermitted
  | some _ => .error .notPermitted
  | none => .error .noEntry

/-- Starts what is at a path. A script may have another script for its interpreter, `scripts` of them at
most, and a program may start others, `fuel` bounding how deep that goes. -/
def start : (fuel scripts : Nat) → Starter
  | 0, _, _, _ => return .ok (.signalled 9)
  | fuel + 1, scripts, path, args => do
    match contentAt (← get).disk path with
    | .error e => return .error e
    | .ok content =>
      let nested : Starter := start fuel 5
      let call : Call := ⟨args.headD [], args.drop 1⟩
      match programOf? content with
      | some "dash" => return .ok (← Shell.main nested call)
      | some "env" => return .ok (← Tool.env nested call)
      | some name =>
        match tool? name with
        | some t => return .ok (.exited (← t call))
        | none => return .error .notExecutable
      | none =>
        match interpreter? (Octets.ofBytes content) with
        | none | some ([], _) => return .error .notExecutable
        | some (name, argument) =>
          match scripts with
          | 0 => return .error .tooManyLinks
          | scripts + 1 => start fuel scripts name (name :: argument ++ path :: args.drop 1)

end Executable

def maxNesting : Nat := 100

def variablesOf (vars : Variables) : Table String Octets :=
  Table.ofList (vars.entries.map fun (name, value) =>
    (String.ofList (Octets.ofString name), Octets.ofString value))

def running (d : Disk) (vars : Variables) (stdin : Bytes) : Process :=
  let stream (n : Nat) (reads : Bool) : Stream := { channel := .pipe n, reads, writes := !reads }
  { disk := d
    environment := variablesOf vars
    pipes := #[⟨Octets.ofBytes stdin, []⟩, {}, {}]
    streams := #[stream 0 true, stream 1 false, stream 2 false]
    descriptors := Table.ofList [(0, 0), (1, 1), (2, 2)] }

/-- What a program makes of its arguments and its input, and what becomes of the disk, or why the
program does not start. -/
def launch : Launcher := fun vars program args stdin => do
  if (program :: args).any (·.toList.contains '\x00') then throw (.spawn .nulArgument)
  else
    let d ← get
    let start := Tool.startNamed (Executable.start maxNesting 5) ((program :: args).map Octets.ofString)
    let (result, after) : Except IoError Status × Process := start.run (running d vars stdin)
    match result with
    | .error e => throw (.spawn e)
    | .ok status =>
      let written (n : Nat) : Bytes := Octets.toBytes ((after.pipes[n]?.getD {}).waiting)
      set { after.disk with workingDirectory := d.workingDirectory }
      return ⟨written 1, written 2, status⟩

end Inlay.Program
