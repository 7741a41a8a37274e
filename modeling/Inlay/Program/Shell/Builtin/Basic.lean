import Inlay.Program.Shell.State

namespace Inlay.Program.Shell

structure Host where
  evaluate : (tested : Bool) → Octets → Sh Nat
  contained : Octets → Sh Nat
  start : Octets → List Octets → Act (Except IoError Status)

structure Invocation where
  host : Host
  name : Octets
  args : List Octets
  tested : Bool := false

structure Builtin where
  run : Invocation → Sh Nat
  special : Bool := false
  assigning : Bool := false

namespace Builtin

def illegalNumber {α : Type} (o : Octets) : Sh α := Sh.fail ("Illegal number: ".toList ++ o)

def maxNumber : Nat := 0x7FFFFFFF

def number (o : Octets) : Sh Nat := do
  match Octets.nat? o with
  | some n => if n ≤ maxNumber then return n else illegalNumber o
  | none => illegalNumber o

structure Given where
  letter : Char
  value : Octets := []

def letters (known : List Char) : Octets → List Octets → Sh (List Given × List Octets)
  | [], rest => return ([], rest)
  | c :: cs, rest => do
    match known.dropWhile (· ≠ c), cs, rest with
    | [], _, _ => Sh.fail ("Illegal option -".toList ++ [c])
    | _ :: ':' :: _, _ :: _, rest => return ([⟨c, cs⟩], rest)
    | _ :: ':' :: _, [], value :: rest => return ([⟨c, value⟩], rest)
    | _ :: ':' :: _, [], [] => Sh.fail ("No arg for -".toList ++ [c] ++ " option".toList)
    | _, cs, rest => do
      let (more, rest) ← letters known cs rest
      return (⟨c, []⟩ :: more, rest)

def optionsWithin (known : List Char) : (count : Nat) → List Octets → Sh (List Given × List Octets)
  | 0, args => return ([], args)
  | count + 1, args => do
    match args with
    | ['-', '-'] :: rest => return ([], rest)
    | ('-' :: c :: cs) :: rest =>
      let (given, rest) ← letters known (c :: cs) rest
      let (more, rest) ← optionsWithin known count rest
      return (given ++ more, rest)
    | args => return ([], args)

def options (known : String) (args : List Octets) : Sh (List Given × List Octets) :=
  optionsWithin (known.toList.filter (· ≠ '\x00')) args.length args

def operands (args : List Octets) : Sh (List Octets) := do return (← options "" args).2

def singleQuoted (o : Octets) : Octets :=
  match o with
  | [] => "''".toList
  | o => parts o.length o
where
  parts : (fuel : Nat) → Octets → Octets
    | 0, _ | _, [] => []
    | fuel + 1, o =>
      let plain := o.takeWhile (· ≠ '\'')
      let rest := o.drop plain.length
      let quotes := rest.takeWhile (· = '\'')
      let shown : Octets := '\'' :: plain ++ ['\'']
      if quotes.isEmpty then shown
      else shown ++ '"' :: quotes ++ ['"'] ++ parts fuel (rest.drop quotes.length)

end Builtin

end Inlay.Program.Shell
