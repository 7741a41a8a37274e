import Inlay.Program.Process
import Inlay.Program.Quoting

namespace Inlay.Program

structure Call where
  name : Octets
  args : List Octets

abbrev Tool := Call → Act Nat

namespace Tool

def complain (c : Call) (text : Octets) : Act Unit := do
  let _ ← Process.put 2 (c.name ++ ": ".toList ++ text ++ ['\n'])

def fail (c : Call) (text : Octets) : Act Nat := do
  complain c text
  return 1

def hint (c : Call) : Octets := ("\nTry '".toList ++ c.name ++ " --help' for more information.".toList)

def print (c : Call) (o : Octets) (status : Nat) : Act Nat := do
  if o.isEmpty then return status
  match ← Process.put 1 o with
  | .ok () => return status
  | .error e => fail c ("write error: ".toList ++ e.reason.1.toList)

def reason (e : IoError) : Octets := e.reason.1.toList

def source (name : Octets) : Act (Except IoError Nat) :=
  if name = ['-'] then Process.stream 0 else Process.openPath name .read

def wholeOf (name : Octets) : Act (Except (IoError ⊕ IoError) Octets) := do
  match ← source name with
  | .error e => return .error (.inl e)
  | .ok n =>
    match ← Process.pull n none with
    | .error e => return .error (.inr e)
    | .ok o => return .ok o

def sourcesOf (names : List Octets) : List Octets := if names.isEmpty then [['-']] else names

end Tool

inductive Takes
  | nothing
  | value
  | joined
  deriving DecidableEq, Repr

structure Choice where
  key : String
  letter : Option Char := none
  long : Option String := none
  takes : Takes := .nothing

structure Arguments where
  given : List (String × Octets) := []
  operands : List Octets := []

namespace Arguments

def has (a : Arguments) (key : String) : Bool := a.given.any (·.1 == key)

def value? (a : Arguments) (key : String) : Option Octets :=
  ((a.given.filter (·.1 == key)).getLast?).map (·.2)

/-- Options by their letters in one argument, up to the one that takes the rest as its value. A
value may also be the next argument. -/
def letters (choices : List Choice) :
    Octets → List Octets → Except Octets (List (String × Octets) × List Octets)
  | [], rest => .ok ([], rest)
  | c :: cs, rest =>
    match choices.find? (·.letter == some c) with
    | none => .error ("invalid option -- '".toList ++ [c, '\''])
    | some choice =>
      match choice.takes, cs, rest with
      | .nothing, _, _ => do
        let (given, rest) ← letters choices cs rest
        .ok ((choice.key, []) :: given, rest)
      | .joined, _, _ => .ok ([(choice.key, cs)], rest)
      | .value, _ :: _, _ => .ok ([(choice.key, cs)], rest)
      | .value, [], value :: rest => .ok ([(choice.key, value)], rest)
      | .value, [], [] => .error ("option requires an argument -- '".toList ++ [c, '\''])

def named (choices : List Choice) (name : Octets) : Except Octets Choice :=
  let dashed : Octets := "--".toList ++ name
  match choices.find? fun c => c.long.map String.toList == some name with
  | some choice => .ok choice
  | none =>
    match choices.filter fun c => c.long.any fun l => name.isPrefixOf l.toList with
    | [] => .error ("unrecognized option '".toList ++ dashed ++ ['\''])
    | choice :: more =>
      if more.all fun c => c.key == choice.key ∧ c.takes = choice.takes then .ok choice
      else
        let names := (choice :: more).map fun c => (" '--" ++ c.long.getD "" ++ "'").toList
        .error ("option '".toList ++ dashed ++ "' is ambiguous; possibilities:".toList ++ names.flatten)

def full (choices : List Choice) (argument : Octets) (rest : List Octets) :
    Except Octets ((String × Octets) × List Octets) := do
  let name := argument.takeWhile (· ≠ '=')
  let choice ← named choices name
  let shown : Octets := ("option '--" ++ choice.long.getD "").toList
  match choice.takes, argument.drop name.length, rest with
  | .nothing, [], _ => .ok ((choice.key, []), rest)
  | .nothing, _ :: _, _ => .error (shown ++ "' doesn't allow an argument".toList)
  | _, _ :: value, _ => .ok ((choice.key, value), rest)
  | .joined, [], _ => .ok ((choice.key, []), rest)
  | .value, [], value :: rest => .ok ((choice.key, value), rest)
  | .value, [], [] => .error (shown ++ "' requires an argument".toList)

def readAll (choices : List Choice) (mixed : Bool) : (count : Nat) → List Octets → Except Octets Arguments
  | 0, _ | _, [] => .ok {}
  | count + 1, argument :: rest =>
    match argument with
    | '-' :: '-' :: name =>
      if name.isEmpty then .ok { operands := rest }
      else do
        let (given, rest) ← full choices name rest
        let a ← readAll choices mixed count rest
        .ok { a with given := given :: a.given }
    | '-' :: c :: cs => do
      let (given, rest) ← letters choices (c :: cs) rest
      let a ← readAll choices mixed count rest
      .ok { a with given := given ++ a.given }
    | _ =>
      if mixed then do
        let a ← readAll choices mixed count rest
        .ok { a with operands := argument :: a.operands }
      else .ok { operands := argument :: rest }

def read (choices : List Choice) (mixed : Bool) (args : List Octets) : Except Octets Arguments :=
  readAll choices mixed args.length args

end Arguments

namespace Tool

def ofOptions (choices : List Choice) (mixed : Bool) (run : Call → Arguments → Act Nat) : Tool := fun c =>
  match Arguments.read choices mixed c.args with
  | .error text => fail c (text ++ hint c)
  | .ok a => run c a

def succeed : Tool := fun _ => return 0

def refuse : Tool := fun _ => return 1

end Tool

end Inlay.Program
