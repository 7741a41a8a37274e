import Inlay.Program.Shell.Grammar
import Inlay.Program.Process

namespace Inlay.Program.Shell

structure Variable where
  value : Option Octets := none
  exported : Bool := false
  readOnly : Bool := false
  deriving DecidableEq, Repr

inductive Skip
  | leave (count : Nat)
  | again (count : Nat)
  | leaveFunction
  deriving DecidableEq, Repr

structure Job where
  process : Nat
  status : Status
  deriving DecidableEq, Repr

inductive Saved
  | variable (name : Octets) (v : Option Variable)
  | options (names : List String)

structure State where
  name : Octets
  parameters : List Octets := []
  bindings : List (Octets × Variable) := []
  functions : Table Octets Command := .empty
  aliases : Table Octets Octets := .empty
  documents : Array Word := #[]
  options : List String := []
  status : Nat := 0
  substituted : Nat := 0
  line : Nat := 1
  readLine : Nat := 1
  command : Option Octets := none
  skip : Option Skip := none
  loops : Nat := 0
  traps : Table Nat Octets := .empty
  pending : List Nat := []
  leaving : Option Nat := none
  jobs : List Job := []
  backgroundProcess : Option Nat := none
  saved : List (List Saved) := []
  directory : Octets := []
  optionIndex : Nat := 1
  optionOffset : Option Nat := none
  found : List Octets := []
  isPart : Bool := false
  unwritten : List Octets := []
  tracing : Bool := false

inductive Escape
  | fault
  | exit
  | ended
  | gone (s : Status)
  deriving DecidableEq, Repr

abbrev Sh := ExceptT Escape (StateT State Act)

namespace Sh

def act {α : Type} (a : Act α) : Sh α := liftM a

def process : Sh Process := act get

def disk : Sh Disk := return (← process).disk

def place (line : Nat) : Sh Octets := do
  let s ← get
  let command := match s.command with
    | some c => c ++ ": ".toList
    | none => []
  return s.name ++ ": ".toList ++ Octets.ofNat line ++ ": ".toList ++ command

def complain (o : Octets) : Sh Unit := do
  let _ ← act (Process.put 2 o)

def warn (text : Octets) : Sh Unit := do
  complain ((← place (← get).line) ++ text ++ ['\n'])

def faultStatus : Nat := 2

def fail {α : Type} (text : Octets) : Sh α := do
  warn text
  modify fun s => { s with status := faultStatus }
  throw .fault

def failSyntax {α : Type} (f : SyntaxFault) : Sh α := do
  modify fun s => { s with line := f.line }
  fail ("Syntax error: ".toList ++ f.message.toList)

def write (o : Octets) : Sh Unit := modify fun s => { s with unwritten := o :: s.unwritten }

def writeLine (o : Octets) : Sh Unit := write (o ++ ['\n'])

def setStatus (n : Nat) : Sh Unit := modify fun s => { s with status := n }

def hasOption (name : String) : Sh Bool := return (← get).options.contains name

end Sh

def optionLetters : List (String × Option Char) :=
  [("errexit", some 'e'), ("noglob", some 'f'), ("ignoreeof", some 'I'), ("interactive", some 'i'),
    ("monitor", some 'm'), ("noexec", some 'n'), ("stdin", some 's'), ("xtrace", some 'x'),
    ("verbose", some 'v'), ("vi", some 'V'), ("emacs", some 'E'), ("noclobber", some 'C'),
    ("allexport", some 'a'), ("notify", some 'b'), ("nounset", some 'u'), ("nolog", none), ("debug", none)]

namespace State

def binding? (s : State) (name : Octets) : Option Variable := s.bindings.lookup name

def value? (s : State) (name : Octets) : Option Octets := (s.binding? name).bind (·.value)

def setOption (s : State) (name : String) (on : Bool) : State :=
  { s with options := if on then name :: s.options.filter (· ≠ name) else s.options.filter (· ≠ name) }

def optionText (s : State) : Octets :=
  (optionLetters.reverse.filter fun o => s.options.contains o.1).filterMap (·.2)

def putVariable (s : State) (name : Octets) (v : Variable) : State :=
  { s with
    bindings :=
      if (s.binding? name).isSome then s.bindings.map fun e => if e.1 = name then (name, v) else e
      else s.bindings ++ [(name, v)] }

def removeVariable (s : State) (name : Octets) : State :=
  { s with bindings := s.bindings.filter fun e => e.1 ≠ name }

def environment (s : State) : Table String Octets :=
  s.bindings.foldl (fun t (name, v) =>
    match v.exported, v.value with
    | true, some value => t.insert (String.ofList name) value
    | _, _ => t) .empty

end State

def defaultSeparators : Octets := [' ', '\t', '\n']

def defaultPath : Octets :=
  "/usr/local/sbin:/usr/local/bin:/usr/sbin:/usr/bin:/sbin:/bin".toList

namespace Sh

def lookup (name : String) : Sh (Option Octets) := return (← get).value? name.toList

def badName {α : Type} (name : Octets) : Sh α := fail (name ++ ": bad variable name".toList)

def assign (name : Octets) (value : Option Octets) (exported readOnly : Bool) : Sh Unit := do
  let s ← get
  let old := (s.binding? name).getD {}
  if old.readOnly then fail (name ++ ": is read only".toList)
  let exported := exported || s.options.contains "allexport"
  if name = "OPTIND".toList then
    if let some v := value then
      match Octets.nat? v with
      | some n => modify fun s => { s with optionIndex := max 1 n, optionOffset := none }
      | none => fail ("Illegal number: ".toList ++ v)
  let s ← get
  match value with
  | none =>
    if exported ∨ readOnly then
      set (s.putVariable name { value := none, exported := old.exported || exported, readOnly })
    else set (s.removeVariable name)
  | some _ =>
    set (s.putVariable name { value, exported := old.exported || exported, readOnly })

def setVariable (name value : Octets) : Sh Unit := do
  if !isName name then badName name
  assign name (some value) false false

def mark (name : Octets) (exported readOnly : Bool) : Sh Unit := do
  if !isName name then badName name
  match (← get).binding? name with
  | some v =>
    modify fun s =>
      s.putVariable name { v with exported := v.exported || exported, readOnly := v.readOnly || readOnly }
  | none => assign name none exported readOnly

def keep (name : Octets) : Sh Unit :=
  modify fun s =>
    match s.saved with
    | [] => s
    | top :: rest => { s with saved := (.variable name (s.binding? name) :: top) :: rest }

def putBack : Saved → State → State
  | .variable name (some v), s => s.putVariable name v
  | .variable name none, s => s.removeVariable name
  | .options names, s => { s with options := names }

def restoreSaved : Sh Unit :=
  modify fun s =>
    match s.saved with
    | [] => s
    | top :: rest => top.foldl (fun s v => putBack v s) { s with saved := rest }

def separators : Sh Octets := return ((← lookup "IFS").getD defaultSeparators)

end Sh

end Inlay.Program.Shell
