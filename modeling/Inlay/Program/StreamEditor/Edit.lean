import Inlay.Program.StreamEditor.Reader
import Inlay.Program.StreamEditor.Substitute
import Inlay.Program.Tool

namespace Inlay.Program.StreamEditor

structure Options where
  delimiter : Char := '\n'
  silent : Bool := false
  separate : Bool := false
  unbuffered : Bool := false
  inPlace : Option Octets := none
  followLinks : Bool := false
  width : Nat := 70

structure Job where
  script : Script
  options : Options
  place : Octets

structure Line where
  text : Octets := []
  ended : Bool := true

inductive Sink
  | output
  | named (name : Octets)
  deriving DecidableEq, Repr

/-- A file that lines are read from, with what has been read ahead. -/
structure Source where
  name : Octets
  stream : Nat
  ahead : Octets := []
  ended : Bool := false

inductive Range
  | closed
  | finished
  | opened
  | openedUpTo (n : Nat)
  deriving DecidableEq, Repr

inductive Queued
  | text (o : Octets)
  | file (name : Octets)

structure Session where
  space : Line := {}
  held : Line := {}
  number : Nat := 0
  replaced : Bool := false
  lastSearch : Option Search := none
  ranges : Array Range
  queue : List Queued := []
  names : List Octets
  source : Option Source := none
  unwritten : List Octets := []
  edited : Option (List Octets) := none
  unended : List Sink := []
  files : List (Octets × Nat) := []
  readers : List (Octets × Source) := []
  status : Nat := 0

def Script.ranges (s : Script) : Array Range :=
  s.commands.map fun c => if c.selection.first = some (.line 0) then .opened else .closed

abbrev Edit := ExceptT Fault (StateT Session Act)

namespace Edit

def act {α : Type} (a : Act α) : Edit α := liftM a

def panic {α : Type} (message : String) (name : Octets) (e : IoError) : Edit α :=
  throw (.panic (message.toList ++ ' ' :: name ++ ": ".toList ++ Tool.reason e))

def flush : Edit Unit := do
  let o := (← get).unwritten.reverse.flatten
  modify fun s => { s with unwritten := [] }
  if !o.isEmpty then
    match ← act (Process.put 1 o) with
    | .ok () => return
    | .error .badDescriptor => panic "couldn't close" "stdout".toList .badDescriptor
    | .error e => panic "couldn't flush" "stdout".toList e

def putOut (j : Job) (o : Octets) : Edit Unit := do
  modify fun s => { s with unwritten := o :: s.unwritten }
  if j.options.unbuffered then flush

def write (j : Job) (sink : Sink) (o : Octets) : Edit Unit := do
  match sink with
  | .output =>
    match (← get).edited with
    | some edited => modify fun s => { s with edited := some (o :: edited) }
    | none => putOut j o
  | .named name =>
    if name = "/dev/stdout".toList then putOut j o
    else if name = "/dev/stderr".toList then
      let _ ← act (Process.put 2 o)
    else
      match (← get).files.lookup name with
      | some n =>
        match ← act (Process.push n o) with
        | .ok () => return
        | .error e => panic "couldn't flush" "<unknown>".toList e
      | none => return

def endLine (j : Job) (sink : Sink) : Edit Unit := do
  if (← get).unended.contains sink then
    modify fun s => { s with unended := s.unended.erase sink }
    write j sink [j.options.delimiter]

def putLine (j : Job) (sink : Sink) (l : Line) : Edit Unit := do
  endLine j sink
  write j sink l.text
  if l.ended then write j sink [j.options.delimiter]
  else modify fun s => { s with unended := sink :: s.unended }

def putText (j : Job) (o : Octets) : Edit Unit := do
  endLine j .output
  write j .output o

def shownName (name : Octets) : Octets := if name = ['-'] then "stdin".toList else name

def blockSize : Nat := 4096

def fill (j : Job) : (fuel : Nat) → Source → Edit Source
  | 0, s => return s
  | fuel + 1, s => do
    if s.ended ∨ s.ahead.contains j.options.delimiter then return s
    let block ← act (if j.options.unbuffered then Process.pullThrough s.stream j.options.delimiter
      else Process.pull s.stream (some blockSize))
    match block with
    | .error e => panic "read error on" (shownName s.name) e
    | .ok [] => return { s with ended := true }
    | .ok o => fill j fuel { s with ahead := s.ahead ++ o }

def maxRounds : Nat := 1000000

def cut (j : Job) (s : Source) : Option (Line × Source) :=
  let text := s.ahead.takeWhile (· ≠ j.options.delimiter)
  match s.ahead.drop text.length with
  | _ :: rest => some (⟨text, true⟩, { s with ahead := rest })
  | [] => if text.isEmpty then none else some (⟨text, false⟩, { s with ahead := [] })

def backupName (suffix name : Octets) : Octets :=
  let base := (name.reverse.takeWhile (· ≠ '/')).reverse
  let directory := name.take (name.length - base.length)
  let new := if suffix.contains '*' then suffix.flatMap fun c => if c = '*' then base else [c]
    else base ++ suffix
  if new.contains '/' then new else directory ++ new

def replaceFile (j : Job) (suffix name content : Octets) : Edit Unit := do
  let p ← act get
  let path := Octets.toBytes name
  let found := if j.options.followLinks then p.disk.locate path else p.disk.place path
  match found with
  | .error e => panic "cannot rename" name e
  | .ok l =>
    let mode := (p.disk.mode path).toOption.getD Entry.defaultFileMode
    let new := Entry.file mode (Octets.toBytes content)
    let kept ← if suffix.isEmpty then pure none else do
      match p.disk.place (Octets.toBytes (backupName suffix name)), p.disk.entry? l with
      | .ok backup, some old => pure (some (backup, old))
      | .error e, _ => panic "cannot rename" name e
      | _, none => pure none
    act (modify fun p =>
      let p := p.replaceAt l new
      match kept with
      | some (backup, old) => p.replaceAt backup old
      | none => p)

def close (j : Job) : Edit Unit := do
  let s ← get
  match s.source, j.options.inPlace, s.edited with
  | some source, some suffix, some edited =>
    set { s with source := none, edited := none, unended := s.unended.erase .output }
    replaceFile j suffix source.name edited.reverse.flatten
  | _, _, _ => set { s with source := none }

def openNext (j : Job) (complain : Octets → Act Unit) : List Octets → Edit Bool
  | [] => do
    modify fun s => { s with names := [] }
    return false
  | name :: names => do
    modify fun s => { s with names }
    let opened ← act (if j.options.inPlace.isSome then Process.openPath name .read else Tool.source name)
    match opened with
    | .error e =>
      act (complain ("can't read ".toList ++ name ++ ": ".toList ++ Tool.reason e))
      modify fun s => { s with status := 2 }
      openNext j complain names
    | .ok n =>
      if j.options.inPlace.isSome then
        match ← act (return (← get).inspect name) with
        | .ok (.file ..) => modify fun s => { s with edited := some [] }
        | _ => throw (.panic ("couldn't edit ".toList ++ name ++ ": not a regular file".toList))
      modify fun s => { s with source := some { name, stream := n } }
      return true

section

variable (j : Job) (complain : Octets → Act Unit)

def advance : (fuel : Nat) → Edit Bool
  | 0 => return false
  | fuel + 1 => do
    match (← get).source with
    | some source =>
      let source ← fill j maxRounds source
      modify fun s => { s with source := some source }
      if !source.ahead.isEmpty then return true
      close j
      if j.options.separate ∧ !(← get).names.isEmpty then
        modify fun s => { s with number := 0, ranges := j.script.ranges, readers := [] }
        endLine j .output
      advance fuel
    | none =>
      if ← openNext j complain (← get).names then advance fuel
      else return false

def atEnd : Edit Bool := do
  match (← get).source with
  | some source =>
    let source ← fill j maxRounds source
    modify fun s => { s with source := some source }
    if !source.ahead.isEmpty then return false
    else if j.options.separate then return true
    else return !(← advance j complain (2 * (← get).names.length + 2))
  | none => return !(← advance j complain (2 * (← get).names.length + 2))

def contentOf (name : Octets) : Edit Octets := do
  if name = "/dev/stdin".toList then
    match (← get).source with
    | some source =>
      if source.name = ['-'] then
        let more := (← act (Process.pull source.stream none)).toOption.getD []
        modify fun s => { s with source := some { source with ahead := [] } }
        return source.ahead ++ more
    | none => pure ()
  match ← act (Process.openPath name .read) with
  | .error _ => return []
  | .ok n =>
    match ← act (Process.pull n none) with
    | .ok o => return o
    | .error e => panic "read error on" name e

def dump : Edit Unit := do
  let queue := (← get).queue.reverse
  modify fun s => { s with queue := [] }
  queue.forM fun q => do
    endLine j .output
    match q with
    | .text o => write j .output o
    | .file name => write j .output (← contentOf name)

def readLine (more : Bool) : Edit Bool := do
  dump j
  modify fun s => { s with replaced := false }
  if !(← advance j complain (2 * (← get).names.length + 3)) then return false
  match (← get).source.bind (cut j) with
  | none => return false
  | some (l, source) =>
    modify fun s =>
      let text := if more then s.space.text ++ j.options.delimiter :: l.text else l.text
      { s with source := some source, space := ⟨text, l.ended⟩, number := s.number + 1 }
    return true

def fault {α : Type} (message : String) : Edit α := throw (.here j.place message)

def resolve (s : Option Search) : Edit Search := do
  match s.or (← get).lastSearch with
  | none => fault j "no previous regular expression"
  | some found =>
    modify fun s => { s with lastSearch := some found }
    return found

def matchesAddress (a : Address) : Edit Bool := do
  match a with
  | .line n => return (← get).number = n
  | .every first step =>
    let n := (← get).number
    return first ≤ n && (n - first) % step = 0
  | .last => atEnd j complain
  | .matching s =>
    let search ← resolve j s
    return (search.find (search.subject (← get).space.text) 0).isSome

def setRange (i : Nat) (r : Range) : Edit Unit := modify fun s => { s with ranges := s.ranges.set! i r }

def ended : Address → Range
  | .line _ => .finished
  | _ => .closed

/-- How a range goes on after the line that it starts with, if it does. An expression is not looked
for in that line. -/
def begun (n : Nat) : Limit → Edit (Option Range)
  | .address (.matching _) => return some .opened
  | .address (.line m) => return if n < m then some (.openedUpTo m) else none
  | .address a => do
    let last ← matchesAddress j complain a
    return if last then none else some .opened
  | .after count => return if count = 0 then none else some (.openedUpTo (n + count))
  | .multiple m => return if m = 0 then none else some (.openedUpTo ((n / m + 1) * m))

def starts (state : Range) (first : Address) : Edit Bool := do
  match first with
  | .line k => return state ≠ .finished && k ≤ (← get).number
  | a => matchesAddress j complain a

/-- Whether a range that has no second line has its first one: not if line numbers say that it ended
before. -/
def hasFirst (n : Nat) : Address → Limit → Bool
  | .line k, .address (.line m) => n = k || n ≤ m
  | _, _ => true

/-- Whether a range has the current line in it. Where a count of lines ended before, its first line
may be this one, on its own. -/
def inRange (i : Nat) (first : Address) (limit : Limit) : Edit Bool := do
  let n := (← get).number
  match (← get).ranges[i]?.getD .closed with
  | .opened =>
    match limit with
    | .address a => if ← matchesAddress j complain a then setRange i (ended first)
    | _ => pure ()
    return true
  | .openedUpTo m =>
    if m ≤ n then setRange i (ended first)
    if n ≤ m then return true
    match limit with
    | .address _ => return false
    | .after _ | .multiple _ => starts j complain .closed first
  | state =>
    if !(← starts j complain state first) then return false
    match ← begun j complain n limit with
    | some range =>
      setRange i range
      return true
    | none =>
      setRange i (ended first)
      return hasFirst n first limit

def isSelected (i : Nat) (s : Selection) : Edit Bool := do
  let chosen ← match s.first, s.limit with
    | none, _ => pure true
    | some a, none => matchesAddress j complain a
    | some a, some limit => inRange j complain i a limit
  return chosen != s.negated

def isInside (i : Nat) : Edit Bool := do
  match (← get).ranges[i]?.getD .closed with
  | .closed | .finished => return false
  | .opened | .openedUpTo _ => return true

def listed (c : Char) : Octets :=
  if c = '\\' then ['\\', '\\'] else if Quoting.isPrintable c then [c] else Quoting.escaped c

def listing (delimiter : Char) (width : Nat) (o : Octets) : Octets :=
  let folded := (o.map listed).foldl (fun (column, done) shown =>
    if width ≠ 0 ∧ width - 1 < column + shown.length then (shown.length, shown :: ['\\', delimiter] :: done)
    else (column + shown.length, shown :: done)) ((0 : Nat), ([] : List Octets))
  folded.2.reverse.flatten ++ ['$', delimiter]

def firstLine (j : Job) (l : Line) : Line :=
  let text := l.text.takeWhile (· ≠ j.options.delimiter)
  ⟨text, l.ended || text.length < l.text.length⟩

def substitute (s : Substitution) : Edit Unit := do
  let search ← resolve j s.search
  if search.machine.groups < s.groups then
    fault j ("invalid reference \\" ++ toString s.groups ++ " on \x60s' command's RHS")
  match s.apply search (← get).space.text with
  | none => return
  | some text =>
    modify fun st => { st with space := { st.space with text }, replaced := true }
    if s.print then putLine j .output (← get).space
    match s.write with
    | some name => putLine j (.named name) (← get).space
    | none => return

inductive Ending
  | done (shown : Bool)
  | again
  | quit (status : Nat)

def joined (j : Job) (l m : Line) : Line := { m with text := l.text ++ j.options.delimiter :: m.text }

def isTaken (c : Condition) : Edit Bool := do
  let replaced := (← get).replaced
  match c with
  | .always => return true
  | .replaced =>
    modify fun s => { s with replaced := false }
    return replaced
  | .notReplaced =>
    modify fun s => { s with replaced := false }
    return !replaced

def isSilent : Bool := j.options.silent || j.script.silent

def queueLine (name : Octets) : Edit Unit := do
  let reader ← match (← get).readers.lookup name with
    | some r => pure (some r)
    | none =>
      match ← act (Process.openPath name .read) with
      | .ok n => pure (some { name, stream := n })
      | .error _ => pure none
  match reader with
  | none => return
  | some r =>
    let r ← fill j maxRounds r
    let (o, r) : Octets × Source := match cut j r with
      | none => ([], r)
      | some (l, r) => (if l.ended then l.text ++ [j.options.delimiter] else l.text, r)
    modify fun s =>
      { s with
        readers := (name, r) :: s.readers.filter (·.1 ≠ name)
        queue := if o.isEmpty then s.queue else .text o :: s.queue }

def execute : (fuel : Nat) → (i : Nat) → Edit Ending
  | 0, _ => return .done true
  | fuel + 1, i => do
    let some c := j.script.commands[i]? | return .done true
    let further := execute fuel (i + 1)
    let selected ← isSelected j complain i c.selection
    if !selected then
      match c.action with
      | .group stop => execute fuel stop
      | _ => further
    else
      match c.action with
      | .nothing | .group _ => further
      | .branch condition label =>
        if ← isTaken condition then
          if label.isEmpty then return .done true
          else execute fuel ((j.script.labels.lookup label).getD j.script.commands.size)
        else further
      | .substitute s =>
        substitute j s
        further
      | .transliterate pairs =>
        modify fun s =>
          { s with space := { s.space with text := s.space.text.map fun c => (pairs.lookup c).getD c } }
        further
      | .append text =>
        modify fun s => { s with queue := .text text :: s.queue }
        further
      | .insert text =>
        putText j (text.dropLast ++ [j.options.delimiter])
        further
      | .change text =>
        if !(← isInside i) then putText j (text.dropLast ++ [j.options.delimiter])
        return .done false
      | .appendFile name =>
        modify fun s => { s with queue := .file name :: s.queue }
        further
      | .appendLine name =>
        queueLine j name
        further
      | .write name =>
        putLine j (.named name) (← get).space
        further
      | .writeFirst name =>
        putLine j (.named name) (firstLine j (← get).space)
        further
      | .print =>
        putLine j .output (← get).space
        further
      | .printFirst =>
        putLine j .output (firstLine j (← get).space)
        further
      | .list width =>
        putText j (listing j.options.delimiter (width.getD j.options.width) (← get).space.text)
        further
      | .number =>
        putText j (Octets.ofNat (← get).number ++ [j.options.delimiter])
        further
      | .fileName =>
        putText j (((← get).source.map (·.name)).getD ['-'] ++ [j.options.delimiter])
        further
      | .delete => return .done false
      | .deleteFirst =>
        match (← get).space.text.dropWhile (· ≠ j.options.delimiter) with
        | [] => return .done false
        | _ :: rest =>
          modify fun s => { s with space := { s.space with text := rest } }
          return .again
      | .next =>
        if ← atEnd j complain then return .done true
        if !isSilent j then putLine j .output (← get).space
        if ← readLine j complain false then further else return .done false
      | .appendNext =>
        if ← atEnd j complain then return .done true
        if ← readLine j complain true then further else return .done true
      | .hold =>
        modify fun s => { s with held := s.space }
        further
      | .holdAppend =>
        modify fun s => { s with held := joined j s.held s.space }
        further
      | .get =>
        modify fun s => { s with space := s.held }
        further
      | .getAppend =>
        modify fun s => { s with space := joined j s.space s.held }
        further
      | .exchange =>
        modify fun s => { s with space := s.held, held := s.space }
        further
      | .clear =>
        modify fun s => { s with space := { s.space with text := [] } }
        further
      | .quit status shown =>
        if shown then
          if !isSilent j then putLine j .output (← get).space
          endLine j .output
          dump j
        return .quit status

def cycles : (fuel : Nat) → (again : Bool) → Edit (Option Nat)
  | 0, _ => return none
  | fuel + 1, again => do
    if !again then
      if !(← readLine j complain false) then return none
    match ← execute j complain maxRounds 0 with
    | .again => cycles fuel true
    | .quit status => return some status
    | .done shown =>
      if shown ∧ !isSilent j then putLine j .output (← get).space
      dump j
      cycles fuel false

def written (s : Script) : List Octets :=
  s.commands.toList.filterMap fun c =>
    match c.action with
    | .write name | .writeFirst name => some name
    | .substitute s => s.write
    | _ => none

def openWritten (name : Octets) : Edit Unit := do
  if name = "/dev/stdout".toList ∨ name = "/dev/stderr".toList ∨ ((← get).files.lookup name).isSome then return
  match ← act (Process.openPath name .write) with
  | .ok n => modify fun s => { s with files := (name, n) :: s.files }
  | .error e => panic "couldn't open file" name e

def giveBack : Edit Unit := do
  match (← get).source with
  | some source => if source.name = ['-'] then act (Process.rewind source.stream source.ahead.length)
  | none => return

def run : Edit Nat := do
  (written j.script).forM openWritten
  let status ← cycles j complain maxRounds false
  giveBack
  close j
  return status.getD (← get).status

end

end Edit

def Session.start (j : Job) (names : List Octets) : Session := { ranges := j.script.ranges, names }

end Inlay.Program.StreamEditor
