import Inlay.Program.StreamEditor.Script

namespace Inlay.Program.StreamEditor

def letterEscapes : List (Char × Char) :=
  [('a', '\x07'), ('f', '\x0C'), ('n', '\n'), ('r', '\r'), ('t', '\t'), ('v', '\x0B')]

/-- A character by its number in a base, in so many digits at most; the letter itself if there are
none. -/
def numbered (letter : Char) (base most : Nat) (rest : Octets) : Char × Octets :=
  let digits := (rest.take most).takeWhile (Octets.isDigitOf base)
  if digits.isEmpty then (letter, rest)
  else (Char.ofNat (Octets.valueOf base digits % 256), rest.drop digits.length)

def control : Octets → Except String (Char × Octets)
  | [] => .ok ('\\', [])
  | '\\' :: '\\' :: rest => .ok ('\x1C', rest)
  | '\\' :: _ => .error "recursive escaping after \\c not allowed"
  | c :: rest => .ok (Char.ofNat (c.toUpper.toNat ^^^ 0x40), rest)

def escape? (cs : Octets) : Except String (Option (Char × Octets)) :=
  match cs with
  | 'c' :: rest => some <$> control rest
  | 'd' :: rest => .ok (some (numbered 'd' 10 3 rest))
  | 'o' :: rest => .ok (some (numbered 'o' 8 3 rest))
  | 'x' :: rest => .ok (some (numbered 'x' 16 2 rest))
  | c :: rest => .ok ((letterEscapes.lookup c).map fun d => (d, rest))
  | [] => .ok none

/-- Puts characters in the place of their escapes, `fuel` of them at most; all others stay. `guarded`
characters keep a backslash. -/
def unescape (guarded : List Char) : (fuel : Nat) → Octets → Except String Octets
  | 0, cs => .ok cs
  | fuel + 1, cs => do
    let plain := cs.takeWhile (· ≠ '\\')
    match cs.drop plain.length with
    | _ :: rest =>
      match ← escape? rest with
      | some (c, rest) =>
        let more ← unescape guarded fuel rest
        .ok (plain ++ (if guarded.contains c then ['\\', c] else [c]) ++ more)
      | none =>
        let more ← unescape guarded fuel (rest.drop 1)
        .ok (plain ++ '\\' :: rest.take 1 ++ more)
    | [] => .ok plain

def stripped : Octets → Octets
  | '\\' :: c :: rest => c :: stripped rest
  | c :: rest => c :: stripped rest
  | [] => []

structure Draft where
  piece : Piece
  rest : Octets
  commands : Array Command := #[]
  labels : List (Octets × Nat) := []
  opened : List (Nat × Octets) := []
  pending : Bool := false
  silent : Bool := false
  confined : Bool := false

abbrev Reader := StateT Draft (Except Fault)

namespace Reader

def refuse {α : Type} (message : String) : Reader α := do
  let d ← get
  throw (.here (d.piece.place d.rest.length) message)

def next : Reader (Option Char) :=
  modifyGet fun d =>
    match d.rest with
    | [] => (none, d)
    | c :: rest => (some c, { d with rest })

def peek : Reader (Option Char) := return (← get).rest.head?

def skip : Reader Unit := modify fun d => { d with rest := d.rest.drop 1 }

def skipBlanks : Reader Unit :=
  modify fun d => { d with rest := d.rest.dropWhile fun c => c = ' ' || c = '\t' }

def peekPast : Reader (Option Char) := do
  skipBlanks
  peek

def nextPast : Reader (Option Char) := do
  skipBlanks
  next

def take (p : Char → Bool) : Reader Octets :=
  modifyGet fun d => (d.rest.takeWhile p, { d with rest := d.rest.dropWhile p })

def number : Reader Nat := return Octets.valueOf 10 (← take Char.isDigit)

def bracketed : (start : Bool) → Octets → Option (Octets × Octets)
  | _, [] => none
  | _, '[' :: c :: rest =>
    if c = ':' ∨ c = '.' ∨ c = '=' then
      match symbol c rest with
      | some (inner, left) =>
        if left.length < rest.length + 2 then (bracketed false left).map fun (o, left) => ('[' :: c :: inner ++ o, left)
        else none
      | none => none
    else (bracketed false (c :: rest)).map fun (o, left) => ('[' :: o, left)
  | start, c :: rest =>
    if c = '\n' then none
    else if c = ']' ∧ !start then some ([c], rest)
    else (bracketed false rest).map fun (o, left) => (c :: o, left)
termination_by _ cs => cs.length
where
  symbol (mark : Char) : Octets → Option (Octets × Octets)
    | [] | [_] => none
    | c :: d :: rest =>
      if c = mark ∧ d = ']' then some ([c, d], rest)
      else (symbol mark (d :: rest)).map fun (o, left) => (c :: o, left)

/-- What an escape stands for between delimiters. A backslash before the delimiter is taken away, and
an expression has its line feeds put in; other escapes stay. -/
def shown (expression : Bool) (delimiter c : Char) : Octets :=
  if c = 'n' ∧ expression then ['\n']
  else if c = '\n' ∨ (c = delimiter ∧ (expression ∨ c ≠ '&')) then [c]
  else ['\\', c]

def upTo (expression : Bool) (delimiter : Char) : (fuel : Nat) → Octets → Option (Octets × Octets)
  | 0, _ | _, [] => none
  | fuel + 1, c :: rest =>
    if c = delimiter then some ([], rest)
    else if c = '\n' then none
    else if c = '\\' then
      match rest with
      | [] => none
      | c :: rest =>
        (upTo expression delimiter fuel rest).map fun (o, rest) =>
          (shown expression delimiter c ++ o, rest)
    else if c = '[' ∧ expression then do
      let (negated, body) : Octets × Octets := match rest with
        | '^' :: rest => (['^'], rest)
        | _ => ([], rest)
      let (inner, rest) ← bracketed true body
      let (o, rest) ← upTo expression delimiter fuel rest
      some ('[' :: negated ++ inner ++ o, rest)
    else (upTo expression delimiter fuel rest).map fun (o, rest) => (c :: o, rest)

def delimited (expression : Bool) (delimiter : Char) (fault : String) : Reader Octets := do
  let d ← get
  match upTo expression delimiter (d.rest.length + 1) d.rest with
  | some (o, rest) =>
    set { d with rest }
    return o
  | none =>
    let _ ← take (· ≠ '\n')
    refuse fault

def unescaped (guarded : List Char) (o : Octets) : Reader Octets :=
  match unescape guarded (o.length + 1) o with
  | .ok o => return o
  | .error message => refuse message

def search (x : Regex.Notation) (groups : Nat) (source : Octets) : Reader (Option Search) := do
  if source.isEmpty then
    if x.ignoreCase ∨ x.multiline then refuse "cannot specify modifiers on empty regexp"
    else return none
  else
    let source ← unescaped [] source
    match Regex.parse x source with
    | .error .bareClass => throw (.panic RegexFault.bareClass.message.toList)
    | .error fault => refuse fault.message
    | .ok (r, count) =>
      if count < groups then
        refuse ("invalid reference \\" ++ toString groups ++ " on \x60s' command's RHS")
      else return some ⟨x, Regex.compile r count⟩

def addressFlags : (fuel : Nat) → Regex.Notation → Reader Regex.Notation
  | 0, x => return x
  | fuel + 1, x => do
    match ← peekPast with
    | some 'I' => skip; addressFlags fuel { x with ignoreCase := true }
    | some 'M' => skip; addressFlags fuel { x with multiline := true }
    | _ => return x

def address? (extended : Bool) : Reader (Option Address) := do
  match ← peek with
  | some '$' =>
    skip
    return some .last
  | some c =>
    if c = '/' ∨ c = '\\' then
      skip
      let unterminated := "unterminated address regex"
      let delimiter ← if c = '/' then pure '/' else do
        match ← next with
        | some c => pure c
        | none => refuse unterminated
      let source ← delimited true delimiter unterminated
      let x ← addressFlags (← get).rest.length { extended }
      return some (.matching (← search x 0 source))
    else if c.isDigit then
      let n ← number
      if (← peekPast) = some '~' then
        skip
        skipBlanks
        let step ← number
        return some (if step = 0 then .line n else .every n step)
      else return some (.line n)
    else return none
  | none => return none

def limit? (extended : Bool) : Reader (Option Limit) := do
  match ← peek with
  | some '+' =>
    skip
    skipBlanks
    return some (.after (← number))
  | some '~' =>
    skip
    skipBlanks
    return some (.multiple (← number))
  | _ => return (← address? extended).map .address

def selection (extended : Bool) : Reader Selection := do
  if (← peek) = some '+' ∨ (← peek) = some '~' then
    skip
    let _ ← number
    refuse "invalid usage of +N or ~N as first address"
  let first ← address? extended
  let limit ← if first.isSome ∧ (← peekPast) = some ',' then do
      skip
      skipBlanks
      match ← limit? extended with
      | some l => pure (some l)
      | none => skip; refuse "unexpected \x60,'"
    else pure none
  let fromStart : Bool := match limit with
    | some (.address (.matching _)) => true
    | _ => false
  if first = some (.line 0) ∧ !fromStart then
    skipBlanks
    skip
    refuse "invalid usage of line address 0"
  skipBlanks
  let negated := (← peek) = some '!'
  if negated then
    skip
    if (← peekPast) = some '!' then
      skip
      refuse "multiple \x60!'s"
  return { first, limit, negated }

def endOfCommand : Reader Unit := do
  match ← peekPast with
  | none | some '\x7d' | some '#' => return
  | some c =>
    skip
    if c ≠ '\n' ∧ c ≠ ';' then refuse "extra characters after command"

def label : Reader Octets := do
  skipBlanks
  take fun c => !Octets.isSpace c && c ≠ ';' && c ≠ '#' && c ≠ '\x7d'

def fileName : Reader Octets := do
  if (← get).confined then refuse "e/r/w commands disabled in sandbox mode"
  skipBlanks
  let name ← take (· ≠ '\n')
  if name.isEmpty then refuse "missing filename in r/R/w/W commands"
  skip
  return name

/-- Lines of text, each but the last one with a backslash at its end, and whether the last one has
one too. -/
def textLines : Octets → Octets × Bool × Octets
  | [] => ([], false, [])
  | ['\\'] => ([], true, [])
  | '\\' :: c :: rest =>
    let (o, pending, rest) := textLines rest
    ('\\' :: c :: o, pending, rest)
  | c :: rest =>
    if c = '\n' then ([], false, rest)
    else
      let (o, pending, rest) := textLines rest
      (c :: o, pending, rest)

def text : Reader Octets := do
  let (raw, pending, rest) := textLines (← get).rest
  modify fun d => { d with rest, pending }
  return stripped (← unescaped ['\\'] raw) ++ ['\n']

def textArgument : Reader Octets := do
  let missing := "expected \\ after \x60a', \x60c' or \x60i'"
  match ← peekPast with
  | none => refuse missing
  | some '\\' =>
    skip
    match ← peek with
    | none =>
      modify fun d => { d with pending := true }
      return []
    | some '\n' =>
      skip
      text
    | some _ => text
  | some _ => text

def insertions : Octets → List Insertion
  | [] => []
  | '&' :: rest => .group 0 :: insertions rest
  | '\\' :: c :: rest =>
    let i : Insertion :=
      if c.isDigit then .group (Octets.digit c)
      else
        match c with
        | 'L' => .casing .lower
        | 'U' => .casing .upper
        | 'E' => .casing .plain
        | 'l' => .firstCasing .lower
        | 'u' => .firstCasing .upper
        | _ => .text [c]
    i :: insertions rest
  | c :: rest => .text [c] :: insertions rest

structure Flags where
  how : Regex.Notation
  everywhere : Bool := false
  occurrence : Option Nat := none
  print : Bool := false
  write : Option Octets := none

def flags : (fuel : Nat) → Flags → Reader Flags
  | 0, f => return f
  | fuel + 1, f => do
    match ← peek with
    | none | some '\x7d' | some '#' => return f
    | some '\n' | some ';' =>
      skip
      return f
    | some 'i' | some 'I' =>
      skip
      flags fuel { f with how := { f.how with ignoreCase := true } }
    | some 'm' | some 'M' =>
      skip
      flags fuel { f with how := { f.how with multiline := true } }
    | some 'p' =>
      skip
      if f.print then refuse "multiple \x60p' options to \x60s' command"
      flags fuel { f with print := true }
    | some 'g' =>
      skip
      if f.everywhere then refuse "multiple \x60g' options to \x60s' command"
      flags fuel { f with everywhere := true }
    | some 'w' =>
      skip
      return { f with write := some (← fileName) }
    | some c =>
      if c.isDigit then
        let n ← number
        if f.occurrence.isSome then refuse "multiple number options to \x60s' command"
        if n = 0 then refuse "number option to \x60s' command may not be zero"
        flags fuel { f with occurrence := some n }
      else
        skip
        if c = ' ' ∨ c = '\t' then return ← flags fuel f
        if c = '\r' then
          if (← next) = some '\n' then return f
        refuse "unknown option to \x60s'"

def substitution (extended : Bool) : Reader Action := do
  let unterminated := "unterminated \x60s' command"
  let some delimiter ← next | refuse unterminated
  let source ← delimited true delimiter unterminated
  let replacement ← delimited false delimiter unterminated
  let replacement := insertions (← unescaped ['\\', '&'] replacement)
  let f ← flags (← get).rest.length { how := { extended } }
  let s : Substitution :=
    { search := none, replacement, everywhere := f.everywhere, occurrence := f.occurrence.getD 1,
      print := f.print, write := f.write }
  return .substitute { s with search := ← search f.how s.groups source }

def transliteration : Reader Action := do
  let unterminated := "unterminated \x60y' command"
  let some delimiter ← next | refuse unterminated
  let source ← unescaped ['\\'] (← delimited false delimiter unterminated)
  let target ← unescaped ['\\'] (← delimited false delimiter unterminated)
  let source := stripped source
  let target := stripped target
  if source.length ≠ target.length then refuse "strings for \x60y' command are different lengths"
  endOfCommand
  return .transliterate (source.zip target).reverse

def argument? : Reader (Option Nat) := do
  match ← peekPast with
  | some c => if c.isDigit then some <$> number else return none
  | none => return none

def plain (a : Action) : Reader Action := do
  endOfCommand
  return a

def action (extended : Bool) (s : Selection) (c : Char) : Reader Action := do
  match c with
  | '\x7b' =>
    let d ← get
    let brace := d.piece.afterEnd d.rest.length
    set { d with opened := (d.commands.size - 1, brace) :: d.opened }
    return .group 0
  | '\x7d' =>
    let d ← get
    match d.opened with
    | [] => refuse "unexpected \x60\x7d'"
    | (n, _) :: opened =>
      if s.first.isSome then refuse "\x60\x7d' doesn't want any addresses"
      endOfCommand
      let stop := d.commands.size
      modify fun d =>
        { d with opened, commands := d.commands.modify n fun c => { c with action := .group stop } }
      return .nothing
  | 'a' => return .append (← textArgument)
  | 'i' => return .insert (← textArgument)
  | 'c' => return .change (← textArgument)
  | ':' =>
    if s.first.isSome then refuse ": doesn't want any addresses"
    let name ← label
    if name.isEmpty then refuse "\":\" lacks a label"
    modify fun d => { d with labels := (name, d.commands.size) :: d.labels }
    return .nothing
  | 'b' => return .branch .always (← label)
  | 't' => return .branch .replaced (← label)
  | 'T' => return .branch .notReplaced (← label)
  | 'q' | 'Q' =>
    if s.limit.isSome then refuse "command only uses one address"
    let status := (← argument?).getD 0
    plain (.quit status (c = 'q'))
  | 'l' =>
    let width ← argument?
    plain (.list width)
  | '=' => plain .number
  | 'd' => plain .delete
  | 'D' => plain .deleteFirst
  | 'F' => plain .fileName
  | 'g' => plain .get
  | 'G' => plain .getAppend
  | 'h' => plain .hold
  | 'H' => plain .holdAppend
  | 'n' => plain .next
  | 'N' => plain .appendNext
  | 'p' => plain .print
  | 'P' => plain .printFirst
  | 'x' => plain .exchange
  | 'z' => plain .clear
  | 'r' => return .appendFile (← fileName)
  | 'R' => return .appendLine (← fileName)
  | 'w' => return .write (← fileName)
  | 'W' => return .writeFirst (← fileName)
  | 's' => substitution extended
  | 'y' => transliteration
  | _ => refuse ("unknown command: \x60" ++ String.ofList [c] ++ "'")

def comment (s : Selection) (isFirst : Bool) : Reader Unit := do
  if s.first.isSome then refuse "comments don't accept any addresses"
  let line ← take (· ≠ '\n')
  let silent : Bool := match line with
    | 'n' :: rest => rest.head?.all fun c => Octets.isSpace c || c = ';'
    | _ => false
  if isFirst ∧ silent then modify fun d => { d with silent := true }

def version : Octets := "4.9".toList

def checkVersion : Reader Unit := do
  let asked := (Octets.splitAt '.' (← label)).map (Octets.valueOf 10)
  let given := (Octets.splitAt '.' version).map (Octets.valueOf 10)
  if List.lex given asked (· < ·) then refuse "expected newer version of sed"

def commands (extended : Bool) : (fuel : Nat) → Reader Unit
  | 0 => return
  | fuel + 1 => do
    let _ ← take fun c => c = ';' || Octets.isSpace c
    let d ← get
    if d.rest.isEmpty then return
    let isFirst := d.commands.isEmpty && d.rest.length == d.piece.text.length
    let s ← selection extended
    match ← nextPast with
    | none => refuse "missing command"
    | some '#' => comment s isFirst
    | some 'v' => checkVersion
    | some c =>
      let n := (← get).commands.size
      modify fun d => { d with commands := d.commands.push ⟨s, .nothing⟩ }
      let a ← action extended s c
      modify fun d => { d with commands := d.commands.set! n ⟨s, a⟩ }
    commands extended fuel

def addText (more : Octets) : Action → Action
  | .append text => .append (text ++ more)
  | .insert text => .insert (text ++ more)
  | .change text => .change (text ++ more)
  | a => a

def piece (extended : Bool) (p : Piece) : Reader Unit := do
  modify fun d => { d with piece := p, rest := p.text }
  if (← get).pending then
    let more ← text
    modify fun d =>
      { d with commands := d.commands.modify (d.commands.size - 1) fun c =>
          { c with action := addText more c.action } }
  commands extended (p.text.length + 1)

end Reader

namespace Draft

def start : Draft := { piece := .expression 0 [], rest := [] }

def read (d : Draft) (extended : Bool) (p : Piece) : Except Fault Draft :=
  (·.2) <$> (Reader.piece extended p).run d

def finish (d : Draft) : Except Fault Script := do
  match d.opened with
  | (_, brace) :: _ => .error (.here brace "unmatched \x60\x7b'")
  | [] =>
    let missing : Option Octets := d.commands.toList.findSome? fun c =>
      match c.action with
      | .branch _ label => if label.isEmpty ∨ d.labels.any (·.1 = label) then none else some label
      | _ => none
    match missing with
    | some label => .error (.panic ("can't find label for jump to \x60".toList ++ label ++ ['\'']))
    | none => .ok { commands := d.commands, labels := d.labels, silent := d.silent }

end Draft

end Inlay.Program.StreamEditor
