import Inlay.Program.Shell.Builtin.Basic
import Inlay.Program.Shell.Signal

namespace Inlay.Program.Shell.Builtin

def cleanSteps (before : List Octets) : List Octets → List Octets
  | [] => before
  | step :: rest =>
    if step.isEmpty ∨ step = ['.'] then cleanSteps before rest
    else if step = ['.', '.'] then cleanSteps before.dropLast rest
    else cleanSteps (before ++ [step]) rest

def namedPath (directory path : Octets) : Octets :=
  let start := if path.head? = some '/' then [] else Octets.splitAt '/' directory
  '/' :: ((cleanSteps [] (start ++ Octets.splitAt '/' path)).intersperse ['/']).flatten

def enter (physical : Bool) (path : Octets) : Sh Bool := do
  let s ← get
  let p ← Sh.process
  let new := namedPath s.directory path
  match p.disk.locate (Octets.toBytes (if physical then path else new)) with
  | .error _ => return false
  | .ok l =>
    if !p.disk.isDirectoryAt l then return false
    Sh.act (set { p with disk := { p.disk with workingDirectory := l } })
    let shown := if physical then Octets.ofBytes (Disk.pathTo l) else new
    Sh.assign "OLDPWD".toList (some s.directory) true false
    modify fun s => { s with directory := shown }
    Sh.assign "PWD".toList (some shown) true false
    return true

def isAnchored (path : Octets) : Bool :=
  path.head? = some '/' || ["./", "../"].any (fun s => s.toList.isPrefixOf path) || path = ['.'] ||
    path = ['.', '.']

def enterAmong (physical : Bool) (path : Octets) : List Octets → Sh (Option Bool)
  | [] => return none
  | place :: places => do
    let whole := if place.isEmpty then path else place ++ '/' :: path
    if (← Sh.disk).isDirectory (Octets.toBytes whole) then
      if ← enter physical whole then return some (!place.isEmpty) else return none
    else enterAmong physical path places

def changeDirectory (i : Invocation) : Sh Nat := do
  let (given, rest) ← options "LP" i.args
  let physical := (given.getLast?.map (·.letter)) == some 'P'
  let (path, back) ← match rest with
    | [] => pure (((← Sh.lookup "HOME").getD []), false)
    | ['-'] :: _ => pure (((← Sh.lookup "OLDPWD").getD []), true)
    | path :: _ => pure (path, false)
  let failed : Sh Bool := Sh.fail ("can't cd to ".toList ++ path)
  let shown ← if isAnchored path then
      if ← enter physical path then pure false else failed
    else do
      let places := Octets.splitAt ':' ((← Sh.lookup "CDPATH").getD [])
      let path := if path.isEmpty then ['.'] else path
      match ← enterAmong physical path places with
      | some shown => pure shown
      | none => if ← enter physical path then pure false else failed
  if shown ∨ back then Sh.writeLine (← get).directory
  return 0

def printDirectory (i : Invocation) : Sh Nat := do
  let (given, _) ← options "LP" i.args
  if (given.getLast?.map (·.letter)) == some 'P' then
    Sh.writeLine (Octets.ofBytes (← Sh.disk).workingPath)
  else Sh.writeLine (← get).directory
  return 0

def permissionBits (who : Octets) (what : Octets) : Nat :=
  let bit (c : Char) : Nat := match c with
    | 'r' => 4
    | 'w' => 2
    | 'x' | 'X' => 1
    | _ => 0
  let bits := what.foldl (fun n c => n ||| bit c) 0
  let place (c : Char) : Nat := match c with
    | 'u' => bits * 64
    | 'g' => bits * 8
    | 'o' => bits
    | _ => bits * 73
  who.foldl (fun n c => n ||| place c) 0

def applyClause? (permissions : Nat) (clause : Octets) : Option Nat :=
  let who := clause.takeWhile fun c => "ugoa".toList.contains c
  let named := if who.isEmpty then ['a'] else who
  match clause.drop who.length with
  | sign :: what =>
    if !what.all fun c => "rwxXst".toList.contains c then none
    else
      let bits := permissionBits named what
      match sign with
      | '+' => some (permissions ||| bits)
      | '-' => some (permissions - (permissions &&& bits))
      | '=' =>
        let cleared := permissions - (permissions &&& permissionBits named "rwx".toList)
        some (cleared ||| bits)
      | _ => none
  | [] => none

def symbolicMask (mask : Nat) : Octets :=
  let allowed := 0o777 - mask
  let part (name : Char) (shift : Nat) : Octets :=
    let bits := allowed >>> shift
    let letter (bit : Nat) (c : Char) : Octets := if bits &&& bit ≠ 0 then [c] else []
    name :: '=' :: letter 4 'r' ++ letter 2 'w' ++ letter 1 'x'
  part 'u' 6 ++ ',' :: part 'g' 3 ++ ',' :: part 'o' 0

def umask (i : Invocation) : Sh Nat := do
  let (given, rest) ← options "S" i.args
  let mask := (← Sh.process).mask
  match rest with
  | [] =>
    Sh.writeLine (if given.isEmpty then Octets.padLeft 4 '0' (Nat.toDigits 8 mask) else symbolicMask mask)
  | o :: _ =>
    let new ← if o.head?.any Char.isDigit then
        if o.all (Octets.isDigitOf 8) then pure (Octets.valueOf 8 o &&& 0o777) else illegalNumber o
      else
        match (Octets.splitAt ',' o).foldlM applyClause? (0o777 - mask) with
        | some allowed => pure (0o777 - allowed)
        | none => Sh.fail ("Illegal mode: ".toList ++ o)
    Sh.act (modify fun p => { p with mask := new })
  return 0

def ulimit (_ : Invocation) : Sh Nat := do
  Sh.writeLine "unlimited".toList
  return 0

def times (_ : Invocation) : Sh Nat := do
  Sh.writeLine "0m0.000000s 0m0.000000s".toList
  Sh.writeLine "0m0.000000s 0m0.000000s".toList
  return 0

def setTraps (action : Option Octets) : List Octets → Sh Nat
  | [] => return 0
  | o :: rest => do
    match Signal.ofText? 0 o with
    | none =>
      Sh.complain ("trap: ".toList ++ o ++ ": bad trap\n".toList)
      return 1
    | some n =>
      modify fun s =>
        { s with
          traps := match action with
            | some text => s.traps.insert n text
            | none => s.traps.filter (· ≠ n) }
      setTraps action rest

def trap (i : Invocation) : Sh Nat := do
  match ← operands i.args with
  | [] =>
    (← get).traps.entries.forM fun (n, action) =>
      Sh.writeLine ("trap -- ".toList ++ singleQuoted action ++ ' ' :: Signal.nameOf n)
    return 0
  | [o] => setTraps none [o]
  | action :: rest => setTraps (if action = ['-'] then none else some action) rest

def killUsage {α : Type} : Sh α :=
  Sh.fail ("Usage: kill [-s sigspec | -signum | -sigspec] [pid | job]... or\n" ++
    "kill -l [exitstatus]").toList

def send (signal target : Nat) : Sh Bool := do
  let p ← Sh.process
  let s ← get
  if target = 0 ∨ (target = p.identifier ∧ !s.isPart) then
    if signal ≠ 0 then Signal.arrive signal
    return true
  else if 100 ≤ target ∧ target ≤ p.identifier then
    Sh.act (set { p with signals := p.signals ++ [(target, signal)] })
    return true
  else return s.jobs.any (·.process = target)

def sendAll (signal : Nat) (status : Nat) : List Octets → Sh Nat
  | [] => return status
  | o :: rest => do
    let found ← match o with
      | '-' :: digits => do
        let _ ← number digits
        pure false
      | '%' :: name => Sh.fail ("No such job: %".toList ++ name)
      | digits => do send signal (← number digits)
    if found then sendAll signal status rest
    else
      Sh.warn "No such process\n".toList
      sendAll signal 1 rest

def listSignals (rest : List Octets) : Sh Nat := do
  match rest with
  | [] =>
    Sh.writeLine ['0']
    (Signal.names.drop 1).forM fun n => Sh.writeLine n.toList
    return 0
  | o :: _ =>
    let n ← number o
    let n := if 128 < n then n - 128 else n
    if 0 < n ∧ n ≤ Signal.greatest then
      Sh.writeLine (Signal.nameOf n)
      return 0
    else Sh.fail ("invalid signal number or exit status: ".toList ++ o)

def killOptions (given : List Given) : Sh (Option Nat × Bool) :=
  given.foldlM (fun (signal, listing) g => do
    if g.letter = 'l' then return (signal, true)
    match Signal.ofText? 1 g.value with
    | some n => return (some n, listing)
    | none => Sh.fail ("invalid signal number or name: ".toList ++ g.value)) (none, false)

def kill (i : Invocation) : Sh Nat := do
  let (signal, listing, rest) ← match i.args with
    | [] => killUsage
    | ('-' :: name) :: rest =>
      match Signal.ofText? 1 name with
      | some n => pure (some n, false, rest)
      | none => do
        let (given, rest) ← options "ls:" i.args
        let (signal, listing) ← killOptions given
        pure (signal, listing, rest)
    | rest => pure (none, false, rest)
  if listing then
    if signal.isSome then killUsage else listSignals rest
  else if rest.isEmpty then killUsage
  else sendAll (signal.getD 15) 0 rest

def waitFor (status : Nat) (o : Octets) : Sh Nat := do
  if o.head? = some '%' then Sh.fail ("No such job: ".toList ++ o)
  let n ← number o
  match (← get).jobs.find? (·.process = n) with
  | some job =>
    Signal.report job.status
    return job.status.code
  | none => return status

def wait (i : Invocation) : Sh Nat := do
  match ← operands i.args with
  | [] =>
    modify fun s => { s with jobs := [] }
    return 0
  | rest => rest.foldlM waitFor 127

def jobs (_ : Invocation) : Sh Nat := return 0

def noJob (_ : Invocation) : Sh Nat := Sh.fail "No current job".toList

end Inlay.Program.Shell.Builtin
