import Inlay.Program.Shell.Builtin.Names
import Inlay.Program.Shell.Redirection

namespace Inlay.Program.Shell

structure Flags where
  tested : Bool := false
  last : Bool := false
  deriving DecidableEq, Repr

namespace Evaluate

def maxRounds : Nat := 200000

def maxNesting : Nat := 1000

def endless {α : Type} : Sh α := throw (.gone (.signalled 13))

section

variable (start : Octets → List Octets → Act (Except IoError Status))
variable (self : Command → Flags → Sh Nat)

/-- The commands of the next lines of a script, `none` after its end, and whether the script ends with
them. -/
def nextLines (r : Reader) : Sh (Option (Option Command × Bool) × Reader) := do
  let s ← get
  let r := { r with aliases := s.aliases, documents := s.documents, again := false, checks := {}, waiting := [] }
  match (Parse.grammar maxNesting .line).run r with
  | .error f => Sh.failSyntax f
  | .ok (c, r) =>
    modify fun s => { s with documents := r.documents, readLine := r.line }
    let ended : Bool := r.again && r.last = .ended
    return (if c.isNone ∧ ended then none else some (c, ended), r)

/-- Runs a script line by line; the result is the status of its last command. With `last` the shell
itself ends with it. -/
def script (flags : Flags) (shown : Bool) : (fuel : Nat) → (status : Nat) → Reader → Sh Nat
  | 0, _, _ => endless
  | fuel + 1, status, r => do
    let (next, after) ← nextLines r
    if shown ∧ (← Sh.hasOption "verbose") then Sh.complain (r.text.take (r.text.length - after.text.length))
    match next with
    | none => return status
    | some (none, _) => script flags shown fuel status after
    | some (some c, ended) =>
      let status ← self c { flags with last := flags.last && ended }
      if (← get).skip.isSome then return status
      script flags shown fuel status after

def text (flags : Flags) (o : Octets) : Sh Nat := script self flags false maxRounds 0 { text := o }

def contained (o : Octets) : Sh Nat := do
  let status ← script self {} true maxRounds 0 { text := o }
  modify fun s => { s with skip := if s.skip = some .leaveFunction then none else s.skip }
  return status

def host : Host where
  evaluate tested o := text self { tested } o
  contained o := contained self o
  start := start

def settleStatus (e : Option Escape) (skip : Bool) : Sh Unit :=
  modify fun s =>
    match s.leaving with
    | some n => { s with leaving := none, status := if e = some .exit ∨ skip then n else s.status }
    | none => s

def finish (body : Sh Unit) : StateT State Act Status := do
  let attempt (body : Sh Unit) : StateT State Act (Option Escape) := do
    match ← body.run with
    | .ok () => return none
    | .error e => return some e
  let settle (e : Option Escape) (skip : Bool) : StateT State Act Unit := do
    let _ ← (settleStatus e skip).run
  match ← attempt body with
  | some (.gone s) => return s
  | e =>
    settle e false
    let s ← get
    match s.traps.get? 0 with
    | none => return .exited (s.status % 256)
    | some action =>
      set { s with traps := s.traps.filter (· ≠ 0), leaving := some s.status, skip := none }
      match ← attempt (do let _ ← text self {} action) with
      | some (.gone s) => return s
      | e =>
        settle e e.isNone
        return .exited ((← get).status % 256)

def inPart (body : Sh Unit) : Sh Status := do
  let s ← get
  let p ← Sh.process
  let part : State :=
    { s with
      isPart := true
      traps := Table.ofList (s.traps.entries.filter fun t => t.2.isEmpty)
      jobs := []
      pending := []
      unwritten := [] }
  let ((status, _), after) := ((finish self body).run part).run p
  Sh.act (set (p.resume after))
  Signal.receive
  return status

def substitute (c : Option Command) : Sh Octets := do
  match c with
  | none => return []
  | some c =>
    let pipe ← Sh.act (Process.addPipe [])
    let stream ← Sh.act (Process.addStream { channel := .pipe pipe, reads := false, writes := true })
    let status ← inPart self do
      Sh.act (Process.attach 1 stream)
      let _ ← self c { last := true }
    let o ← Sh.act (Process.pipeContent pipe)
    Signal.report status
    modify fun s => { s with substituted := status.code }
    return o

def expandText (m : Mode) (w : Word) : Sh Octets := Expand.text (substitute self) m w

def runTraps : Sh Unit := do
  if (← get).pending.isEmpty then return
  let s ← get
  if s.skip.isSome then return
  let status := s.leaving.getD s.status
  set { s with pending := [], leaving := some status }
  s.pending.forM fun n => do
    match (← get).traps.get? n with
    | none => return
    | some action =>
      let _ ← text self {} action
      if (← get).skip ≠ some .leaveFunction then Sh.setStatus status
  modify fun t => { t with leaving := s.leaving }

def roundEnds : Sh Bool := do
  let s ← get
  match s.skip with
  | none => return false
  | some (.leave n) =>
    set { s with skip := if n ≤ 1 then none else some (.leave (n - 1)) }
    return true
  | some (.again n) =>
    set { s with skip := if n ≤ 1 then none else some (.again (n - 1)) }
    return decide (1 < n)
  | some .leaveFunction => return true

def isSkipping : Sh Bool := return (← get).skip.isSome

def inLoop (body : Sh Nat) : Sh Nat := do
  modify fun s => { s with loops := s.loops + 1 }
  let status ← body
  modify fun s => { s with loops := s.loops - 1 }
  return status

def loop (negated : Bool) (condition body : Command) (flags : Flags) : (fuel : Nat) → (status : Nat) → Sh Nat
  | 0, _ => endless
  | fuel + 1, status => do
    let n ← self condition { tested := true }
    let skipping ← isSkipping
    let leaving : Bool := (← get).skip = some .leaveFunction
    let ends ← roundEnds
    let status := if leaving then n else status
    if ends then return status
    if skipping then loop negated condition body flags fuel status
    else if (n = 0) = negated then return status
    else
      let status ← self body flags
      if ← roundEnds then return status
      loop negated condition body flags fuel status

def each (name : Octets) (body : Command) (flags : Flags) (status : Nat) : List Octets → Sh Nat
  | [] => return status
  | o :: rest => do
    Sh.setVariable name o
    let status ← self body flags
    if ← roundEnds then return status
    each name body flags status rest

def anyMatches (o : Octets) : List Word → Sh Bool
  | [] => return false
  | w :: ws => do
    if Pattern.accepts (← Expand.pattern (substitute self) w) o then return true
    anyMatches o ws

def choice (flags : Flags) (o : Octets) : List (List Word × Option Command) → Sh Nat
  | [] => return 0
  | (ws, body) :: rest => do
    if ← anyMatches self o ws then
      match body with
      | some c => self c flags
      | none => return 0
    else choice flags o rest

def puttingBack (before : List (Nat × Option Nat)) (body : Sh Nat) : Sh Nat := do
  try
    let status ← body
    Redirection.putBack before
    return status
  catch e =>
    Redirection.putBack before
    throw e

def redirected (rs : List Redirect) (body : Sh Nat) : Sh Nat := do
  let ps ← rs.mapM (Redirection.prepare (substitute self))
  puttingBack (← Redirection.current ps) do
    if ← Redirection.applyAll (substitute self) ps then body else return Sh.faultStatus

def addJob (status : Status) : Sh Unit := do
  let p ← Sh.process
  modify fun s =>
    let n := p.identifier + 10000 + s.jobs.length
    { s with jobs := s.jobs ++ [⟨n, status⟩], backgroundProcess := some n }

def closeInput : Sh Unit := do
  let n ← Sh.act (Process.addStream { channel := .device .null, reads := true, writes := true })
  Sh.act (Process.attach 0 n)

def pipeline (flags : Flags) (input : Option Nat) : List Command → Sh Status
  | [] => return .success
  | c :: rest => do
    let pipe ← if rest.isEmpty then pure none else some <$> Sh.act (Process.addPipe [])
    let status ← inPart self do
      if let some n := input then
        let s ← Sh.act (Process.addStream { channel := .pipe n, reads := true, writes := false })
        Sh.act (Process.attach 0 s)
      if let some n := pipe then
        let s ← Sh.act (Process.addStream { channel := .pipe n, reads := false, writes := true })
        Sh.act (Process.attach 1 s)
      let _ ← self c { flags with last := true }
    Signal.report status
    if rest.isEmpty then return status
    pipeline flags pipe rest

def assignAll (kept : Bool) (exported : Bool) : List Word → Sh (List Octets)
  | [] => return []
  | w :: ws => do
    match Word.assignment? w with
    | none => assignAll kept exported ws
    | some (name, value) =>
      let o ← expandText self { tilde := true, colons := true } value
      if !kept then Sh.keep name
      Sh.assign name (some o) (exported || !kept) false
      return (name ++ '=' :: o) :: (← assignAll kept exported ws)

def quotedWord (o : Octets) (documents : Array Word) : Word :=
  let mark : Waiting := { number := 0, mark := ['\x00'], bare := false, quoted := false }
  let read : Parse (Draft × Option Char) := do
    let c ← Parse.joined
    Parse.segments (Parse.grammar maxNesting) (some mark) Parse.maxLength c
      { frame := { style := .doubled, doubled := true } }
  match read.run { text := o, documents } with
  | .ok ((d, _), _) => d.word
  | .error _ => []

def trace (stream : Option Nat) (words : List Octets) : Sh Unit := do
  let s ← get
  if !s.options.contains "xtrace" ∨ s.tracing then return
  set { s with tracing := true }
  let shown ← expandText self { quoted := true } (quotedWord ((s.value? "PS4".toList).getD []) s.documents)
  modify fun s => { s with tracing := false }
  let line := shown ++ (words.intersperse [' ']).flatten ++ ['\n']
  match stream with
  | some n =>
    let _ ← Sh.act (Process.push n line)
  | none => return

def flushOutput : Sh Bool := do
  let o := (← get).unwritten.reverse.flatten
  modify fun s => { s with unwritten := [] }
  if o.isEmpty then return true
  match ← Sh.act (Process.put 1 o) with
  | .ok () => return true
  | .error _ => return false

def unwind (depth : Nat) : Sh Unit := do
  let n := (← get).saved.length - depth
  (List.range n).forM fun _ => Sh.restoreSaved

def runBuiltin (b : Builtin) (flags : Flags) (name : Octets) (args : List Octets) : Sh (Option Nat) := do
  let before ← get
  let invocation : Invocation := { host := host start self, name, args, tested := flags.tested }
  let result ← try
      set { before with command := some name }
      let status ← b.run invocation
      if ← flushOutput then pure (some status)
      else
        Sh.warn (name ++ ": I/O error".toList)
        pure (some (status ||| 1))
    catch e =>
      let _ ← flushOutput
      modify fun s => { s with command := before.command }
      if e ≠ .fault then throw e
      unwind before.saved.length
      modify fun s => { s with loops := before.loops }
      pure none
  modify fun s => { s with command := before.command, status := result.getD s.status }
  return result

def runFunction (body : Command) (flags : Flags) (args : List Octets) : Sh Nat := do
  let s ← get
  set { s with parameters := args, loops := 0, optionIndex := 1, optionOffset := none }
  let restore : Sh Unit := modify fun t =>
    { t with
      parameters := s.parameters
      loops := s.loops
      optionIndex := s.optionIndex
      optionOffset := s.optionOffset
      skip := if t.skip = some .leaveFunction then none else t.skip }
  try
    let _ ← self body { tested := flags.tested }
  catch e =>
    restore
    throw e
  restore
  return (← get).status

def firstFields : List Word → Sh (List Octets × List Word)
  | [] => return ([], [])
  | w :: ws => do
    match ← Expand.fields (substitute self) w with
    | [] => firstFields ws
    | fields => return (fields, ws)

/-- The arguments of a command, those after the first fields not expanded yet. -/
structure Line where
  fields : List Octets
  words : List Word
  start : Nat := 0
  noFunctions : Bool := false
  usual : Bool := false

def fieldAt (l : Line) (n : Nat) : Sh (Option Octets × Line) := do
  match l.fields[n]? with
  | some o => return (some o, l)
  | none =>
    let (fields, words) ← firstFields self l.words
    return (fields.head?, { l with fields := l.fields ++ fields, words })

def behindCommand : (fuel : Nat) → (n : Nat) → (usual : Bool) → Line → Sh (Bool × Line)
  | 0, _, _, l => return (false, l)
  | fuel + 1, n, usual, l => do
    let found (n : Nat) (l : Line) : Bool × Line := (true, { l with start := n, noFunctions := true, usual })
    match ← fieldAt self l n with
    | (none, l) => return (false, l)
    | (some ['-', '-'], l) =>
      match ← fieldAt self l (n + 1) with
      | (none, l) => return (false, l)
      | (some _, l) => return found (n + 1) l
    | (some ('-' :: c :: cs), l) =>
      if (c :: cs).all (· = 'p') then behindCommand fuel (n + 1) true l else return (false, l)
    | (some _, l) => return found n l

def builtinOf : (fuel : Nat) → (direct : Bool) → Line → Sh (Option (Builtin × Bool) × Line)
  | 0, _, l => return (none, l)
  | fuel + 1, direct, l => do
    let name := (l.fields[l.start]?).getD []
    let s ← get
    if !l.noFunctions ∧ (s.functions.get? name).isSome then return (none, l)
    match Builtin.named? (String.ofList name) with
    | none => return (none, l)
    | some b =>
      if name ≠ "command".toList then return (some (b, direct), l)
      match ← behindCommand self maxNesting (l.start + 1) l.usual l with
      | (true, l) => builtinOf fuel false l
      | (false, l) => return (some (b, direct), l)

def otherFields (assigning : Bool) (w : Word) : Sh (List Octets) := do
  match if assigning then Word.assignment? w else none with
  | some (name, value) =>
    return [name ++ '=' :: (← expandText self { tilde := true, colons := true } value)]
  | none => Expand.fields (substitute self) w

def canReplace (flags : Flags) : Sh Bool := do
  let s ← get
  return flags.last && s.traps.entries.all fun t => t.2.isEmpty

def runProgram (flags : Flags) (usual : Bool) (args : List Octets) : Sh Nat := do
  let path ← if usual then pure defaultPath else Lookup.searchPath
  let result ← Lookup.run (host start self) path args
  let status ← match result with
    | .ok s => pure s
    | .error e => do
      Sh.warn (args.headD [] ++ ": ".toList ++ Lookup.reason e)
      pure (.exited (Lookup.failedStatus e))
  if ← canReplace flags then throw (.gone status)
  Signal.report status
  Signal.receive
  return status.code

def runTarget (flags : Flags) (l : Line) (known : Option (Builtin × Bool)) (args : List Octets) : Sh Nat := do
  match known, args with
  | some (b, direct), name :: args =>
    match ← runBuiltin start self b flags name args with
    | some status => return status
    | none =>
      if b.special ∧ direct then throw .fault
      return (← get).status
  | none, name :: rest =>
    let path ← if l.usual then pure defaultPath else Lookup.searchPath
    match ← Builtin.targetOf path (!l.noFunctions) name with
    | .function body => runFunction self body flags rest
    | .missing e =>
      Sh.warn (name ++ ": ".toList ++ Lookup.reason e)
      return 127
    | .builtin _ | .program _ => runProgram start self flags l.usual (name :: rest)
  | _, [] => return (← get).substituted

def simple (flags : Flags) (assignments arguments : List Word) (rs : List Redirect) : Sh Nat := do
  modify fun s => { s with substituted := 0 }
  let (fields, words) ← firstFields self arguments
  let (known, l) ← if fields.isEmpty then pure (none, { fields, words })
    else builtinOf self maxNesting true { fields, words }
  let assigning := known.any (·.1.assigning)
  let more ← l.words.mapM (otherFields self assigning)
  let all := l.fields ++ more.flatten
  let args := all.drop l.start
  let special : Bool := known.any fun k => k.1.special && k.2
  let isReplacement : Bool := args.head? = some "exec".toList && known.isSome
  let kept : Bool := args.isEmpty || special
  if !kept then modify fun s => { s with saved := [] :: s.saved }
  let stream := (← Sh.process).descriptors.get? 2
  let ps ← rs.mapM (Redirection.prepare (substitute self))
  let before ← Redirection.current ps
  let body : Sh Nat := do
    if !(← Redirection.applyAll (substitute self) ps) then
      Sh.setStatus Sh.faultStatus
      if special then throw .fault
      return Sh.faultStatus
    let assigned ← assignAll self kept (isReplacement && decide (1 < args.length)) assignments
    trace self stream (assigned ++ all)
    runTarget start self flags l known args
  let status ← if isReplacement ∧ args.length ≤ 1 then do
      try body catch e => do
        Redirection.putBack before
        throw e
    else puttingBack before body
  if !kept then Sh.restoreSaved
  return status

def subshell (flags : Flags) (body : Command) (rs : List Redirect) : Sh Nat := do
  let ps ← rs.mapM (Redirection.prepare (substitute self))
  let run : Sh Unit := do
    ps.forM (Redirection.apply (substitute self))
    let _ ← self body { flags with last := true }
  if ← canReplace flags then
    run
    throw .ended
  let status ← inPart self run
  Signal.report status
  return status.code

def background (body : Command) (rs : List Redirect) : Sh Nat := do
  let ps ← rs.mapM (Redirection.prepare (substitute self))
  let status ← inPart self do
    closeInput
    ps.forM (Redirection.apply (substitute self))
    let _ ← self body { last := true }
  addJob status
  return 0

def backgroundPipeline (flags : Flags) (cs : List Command) : Sh Nat := do
  let p ← Sh.process
  closeInput
  let status ← pipeline self flags none cs
  Redirection.putBack [(0, p.descriptors.get? 0)]
  addJob status
  return 0

def atLine (line : Nat) : Sh Unit := modify fun s => { s with line }

/-- A command by its kind. The second result tells whether a failure ends the shell where the option for
this is set; the first is none where the status is as it was left. -/
def dispatch (flags : Flags) : Command → Sh (Option Nat × Bool)
  | .simple line assignments arguments rs => do
    atLine line
    return (some (← simple start self flags assignments arguments rs), true)
  | .pipeline false cs => do return (some (← pipeline self flags none cs).code, true)
  | .pipeline true cs => do return (some (← backgroundPipeline self flags cs), true)
  | .redirected line body rs => do
    atLine line
    return (some (← redirected self rs (self body { tested := flags.tested })), false)
  | .background _ body rs => do return (some (← background self body rs), true)
  | .subshell line body rs => do
    atLine line
    return (some (← subshell self flags body rs), true)
  | .both first second => do
    let status ← self first { tested := true }
    if status ≠ 0 ∨ (← isSkipping) then return (none, false)
    return (some (← self second flags), false)
  | .either first second => do
    let status ← self first { tested := true }
    if status = 0 ∨ (← isSkipping) then return (none, false)
    return (some (← self second flags), false)
  | .sequence first second => do
    let _ ← self first { tested := flags.tested }
    if ← isSkipping then return (none, false)
    return (some (← self second flags), false)
  | .negated body => do
    let status ← self body { tested := true }
    return (some (if status = 0 then 1 else 0), false)
  | .conditional condition body other => do
    let status ← self condition { tested := true }
    if ← isSkipping then return (none, false)
    if status = 0 then return (some (← self body flags), false)
    match other with
    | some c => return (some (← self c flags), false)
    | none => return (some 0, false)
  | .loop negated condition body => do
    return (some (← inLoop (loop self negated condition body { tested := flags.tested } maxRounds 0)), false)
  | .each line name words body => do
    atLine line
    let fields ← words.mapM (Expand.fields (substitute self))
    return (some (← inLoop (each self name body { tested := flags.tested } 0 fields.flatten)), false)
  | .choice line word cases => do
    atLine line
    let o ← expandText self { tilde := true } word
    return (some (← choice self flags o cases), false)
  | .define _ name body => do
    modify fun s => { s with functions := s.functions.insert name body }
    return (some 0, false)

def step (c : Command) (flags : Flags) : Sh Nat := do
  if !(← Sh.hasOption "noexec") then
    runTraps self
    let (status, ends) ← dispatch start self flags c
    if let some n := status then Sh.setStatus n
    runTraps self
    if ends ∧ !flags.tested ∧ status ≠ some 0 ∧ (← Sh.hasOption "errexit") then throw .ended
  if flags.last then throw .ended
  return (← get).status

end

def command (start : Octets → List Octets → Act (Except IoError Status)) : (fuel : Nat) → Command → Flags → Sh Nat
  | 0, _, _ => throw (.gone (.signalled 11))
  | fuel + 1, c, flags => step start (command start fuel) c flags

end Evaluate

end Inlay.Program.Shell
