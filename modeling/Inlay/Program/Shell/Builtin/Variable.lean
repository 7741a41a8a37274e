import Inlay.Program.Shell.Builtin.Basic

namespace Inlay.Program.Shell.Builtin

def listed (o : Octets) (name : Octets) (v : Variable) : Octets :=
  let start := if o.isEmpty then [] else o ++ [' ']
  match v.value with
  | some value => start ++ name ++ '=' :: singleQuoted value
  | none => start ++ name

def list (start : Octets) (wanted : Variable → Bool) : Sh Unit := do
  let found := (← get).bindings.filter fun e => wanted e.2
  (found.mergeSort fun a b => Octets.isAtMost a.1 b.1).forM fun (name, v) => Sh.writeLine (listed start name v)

def splitAssignment (o : Octets) : Octets × Option Octets :=
  let name := o.takeWhile (· ≠ '=')
  (name, (o.drop name.length).tail?)

def markAll (exported readOnly : Bool) (i : Invocation) : Sh Nat := do
  let (given, names) ← options "p" i.args
  if !given.isEmpty ∨ names.isEmpty then
    list i.name fun v => if exported then v.exported else v.readOnly
  else
    names.forM fun o => do
      match splitAssignment o with
      | (name, none) => Sh.mark name exported readOnly
      | (name, some value) =>
        if !isName name then Sh.badName name
        Sh.assign name (some value) exported readOnly
  return 0

def makeLocal (i : Invocation) : Sh Nat := do
  if (← get).saved.isEmpty then Sh.fail "not in a function".toList
  i.args.forM fun o => do
    let (name, value) := splitAssignment o
    if name = ['-'] then
      modify fun s =>
        match s.saved with
        | top :: rest => { s with saved := (.options s.options :: top) :: rest }
        | [] => s
    else
      if !isName name then Sh.badName name
      Sh.keep name
      if value.isSome then Sh.assign name value false false
  return 0

def remove (i : Invocation) : Sh Nat := do
  let (given, names) ← options "vf" i.args
  let functions := (given.getLast?.map (·.letter)) == some 'f'
  names.forM fun name => do
    if functions then modify fun s => { s with functions := s.functions.filter (· ≠ name) }
    else
      if !isName name then Sh.badName name
      Sh.assign name none false false
  return 0

def showOptions (asCommands : Bool) : Sh Unit := do
  let s ← get
  if !asCommands then Sh.writeLine "Current option settings".toList
  optionLetters.forM fun (name, _) => do
    let on := s.options.contains name
    if asCommands then Sh.writeLine ((if on then "set -o " else "set +o ").toList ++ name.toList)
    else Sh.writeLine (Octets.padRight 16 name.toList ++ (if on then "on" else "off").toList)

def setLetter (on : Bool) (c : Char) : Sh Unit := do
  match optionLetters.find? fun o => o.2 = some c with
  | some (name, _) => modify fun s => s.setOption name on
  | none => Sh.fail ("Illegal option ".toList ++ [if on then '-' else '+', c])

def setNamed (on : Bool) (name : Octets) : Sh Unit := do
  match optionLetters.find? fun o => o.1.toList = name with
  | some (name, _) => modify fun s => s.setOption name on
  | none => Sh.fail ("Illegal option ".toList ++ [if on then '-' else '+'] ++ "o ".toList ++ name)

def setLetters (on : Bool) : Octets → List Octets → Sh (List Octets)
  | [], rest => return rest
  | 'o' :: cs, rest => do
    match rest with
    | [] => showOptions !on
    | name :: _ => setNamed on name
    setLetters on cs (rest.drop 1)
  | c :: cs, rest => do
    setLetter on c
    setLetters on cs rest

def setParameters (ps : List Octets) : Sh Unit :=
  modify fun s => { s with parameters := ps, optionIndex := 1, optionOffset := none }

def setArguments : (count : Nat) → List Octets → Sh Unit
  | _, [] | 0, _ => return
  | count + 1, arg :: rest => do
    match arg with
    | ['-'] =>
      modify fun s => (s.setOption "xtrace" false).setOption "verbose" false
      if !rest.isEmpty then setParameters rest
    | ['-', '-'] => setParameters rest
    | '-' :: cs => setArguments count (← setLetters true cs rest)
    | '+' :: cs => setArguments count (← setLetters false cs rest)
    | _ => setParameters (arg :: rest)

def setCommand (i : Invocation) : Sh Nat := do
  if i.args.isEmpty then list [] fun v => v.value.isSome else setArguments i.args.length i.args
  return 0

def shift (i : Invocation) : Sh Nat := do
  let n ← match i.args with
    | o :: _ => number o
    | [] => pure 1
  let s ← get
  if s.parameters.length < n then Sh.fail "can't shift that many".toList
  setParameters (s.parameters.drop n)
  return 0

/-- The next option among arguments: its letter, what is left of its argument, and how many arguments
have been read. -/
structure Next where
  letter : Char := '?'
  left : Octets := []
  index : Nat
  done : Bool := false

def refuseOption (quiet : Bool) (c : Char) (text : Octets) : Sh Unit := do
  if quiet then Sh.setVariable "OPTARG".toList [c]
  else
    Sh.complain (text ++ ['\n'])
    Sh.assign "OPTARG".toList none false false

def takeOption (known : Octets) (arguments : List Octets) (index : Nat) (c : Char) (cs : Octets) : Sh Next := do
  let quiet : Bool := known.head? = some ':'
  match known.dropWhile (· ≠ c) with
  | [] =>
    refuseOption quiet c ("Illegal option -".toList ++ [c])
    return { left := cs, index }
  | _ :: ':' :: _ =>
    if !cs.isEmpty then
      Sh.setVariable "OPTARG".toList cs
      return { letter := c, index }
    match arguments[index - 1]? with
    | some value =>
      Sh.setVariable "OPTARG".toList value
      return { letter := c, index := index + 1 }
    | none =>
      refuseOption quiet c ("No arg for -".toList ++ [c] ++ " option".toList)
      return { letter := if quiet then ':' else '?', index }
  | _ =>
    Sh.setVariable "OPTARG".toList []
    return { letter := c, left := cs, index }

def nextOption (known : Octets) (arguments : List Octets) : Sh Next := do
  let s ← get
  let index := s.optionIndex
  let left := match s.optionOffset with
    | some offset => if index ≤ 1 then [] else (arguments[index - 2]?.getD []).drop offset
    | none => []
  match left with
  | c :: cs => takeOption known arguments index c cs
  | [] =>
    match arguments[index - 1]? with
    | some ['-', '-'] => return { index := index + 1, done := true }
    | some ('-' :: c :: cs) => takeOption known arguments (index + 1) c cs
    | _ => return { index, done := true }

def getOptions (i : Invocation) : Sh Nat := do
  match ← operands i.args with
  | known :: name :: given =>
    let s ← get
    let arguments := if given.isEmpty then s.parameters else given
    if arguments.length + 1 < s.optionIndex then
      modify fun s => { s with optionIndex := 1, optionOffset := none }
    let n ← nextOption known arguments
    Sh.assign "OPTIND".toList (some (Octets.ofNat n.index)) false false
    Sh.setVariable name [n.letter]
    let length := (arguments[n.index - 2]?.getD []).length
    modify fun s =>
      { s with
        optionIndex := n.index
        optionOffset := if n.left.isEmpty then none else some (length - n.left.length) }
    return if n.done then 1 else 0
  | _ => Sh.fail "Usage: getopts optstring var [arg...]".toList

def aliasLine (name value : Octets) : Octets := name ++ '=' :: singleQuoted value

def aliasBin (name : Octets) : Nat :=
  match name with
  | [] => 0
  | c :: _ => (name.foldl (fun n d => n + d.toNat) (c.toNat * 16)) % 39

def aliasCommand (i : Invocation) : Sh Nat := do
  if i.args.isEmpty then
    let found := (← get).aliases.entries.mergeSort fun a b => aliasBin a.1 ≤ aliasBin b.1
    found.forM fun (name, value) => Sh.writeLine (aliasLine name value)
    return 0
  i.args.foldlM (fun status o => do
    let name := o.take 1 ++ (o.drop 1).takeWhile (· ≠ '=')
    match (o.drop name.length).tail? with
    | some value =>
      modify fun s => { s with aliases := s.aliases.insert name value }
      return status
    | none =>
      match (← get).aliases.get? o with
      | some value =>
        Sh.writeLine (aliasLine o value)
        return status
      | none =>
        Sh.complain ("alias: ".toList ++ o ++ " not found\n".toList)
        return 1) 0

def unalias (i : Invocation) : Sh Nat := do
  let (given, names) ← options "a" i.args
  if !given.isEmpty then
    modify fun s => { s with aliases := .empty }
    return 0
  names.foldlM (fun status name => do
    if (← get).aliases.contains name then
      modify fun s => { s with aliases := s.aliases.filter (· ≠ name) }
      return status
    else
      Sh.complain ("unalias: ".toList ++ name ++ " not found\n".toList)
      return 1) 0

end Inlay.Program.Shell.Builtin
