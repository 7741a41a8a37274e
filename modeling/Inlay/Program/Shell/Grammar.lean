import Inlay.Program.Shell.Word

namespace Inlay.Program.Shell

namespace Parse

def specialNames : List String :=
  [".", ":", "break", "continue", "eval", "exec", "exit", "export", "readonly", "return", "set", "shift", "times",
    "trap", "unset"]

section

variable (grammar : Grammar)

def redirection (digit : Option Char) (sign : Char) : Parse Unit := do
  let fd (standard : Nat) : Nat := (digit.map Octets.digit).getD standard
  let file (standard : Nat) (how : Opening) : Redirect := .file (fd standard) how []
  let c ← joined
  let redirect ← match sign, c with
    | '>', some '>' => pure (file 1 .append)
    | '>', some '|' => pure (file 1 .overwrite)
    | '>', some '&' => pure (.copy (fd 1) [])
    | '>', _ =>
      unread c
      pure (file 1 .write)
    | _, some '<' =>
      let number := (← get).documents.size
      let bare ← follows '-'
      modify fun r =>
        { r with
          documents := r.documents.push []
          waiting := r.waiting ++ [{ number, bare, mark := [], quoted := true }] }
      pure (.document (fd 0) number)
    | _, some '&' => pure (.copy (fd 0) [])
    | _, some '>' => pure (file 0 .update)
    | _, _ =>
      unread c
      pure (file 0 .read)
  modify fun r => { r with redirect := some redirect }

def comment : (fuel : Nat) → Parse Unit
  | 0 => return
  | fuel + 1 => do
    match ← next with
    | some '\n' => unread (some '\n')
    | none => return
    | some _ => comment fuel

def wordToken (c : Option Char) : Parse Token := do
  let (d, c) ← segments grammar none maxLength c { frame := { style := .plain } }
  finish false d
  let digit? : Option (Option Char) := match d.parts with
    | [] => some none
    | [.char c] => if c.isDigit then some (some c) else none
    | _ => none
  match c, d.quoted, digit? with
  | some '>', false, some digit =>
    redirection digit '>'
    return .redirection
  | some '<', false, some digit =>
    redirection digit '<'
    return .redirection
  | c, quoted, _ =>
    unread c
    modify fun r => { r with word := d.word, quoted }
    return .word

def scan : (fuel : Nat) → Parse Token
  | 0 => return .ended
  | fuel + 1 => do
    let either (double single : String) (c : Char) : Parse Token := do
      return .symbol (if ← follows c then double else single)
    match ← joined with
    | none => return .ended
    | some ' ' | some '\t' => scan fuel
    | some '#' =>
      comment maxLength
      scan fuel
    | some '\n' =>
      nextLine
      return .newline
    | some '&' => either "&&" "&" '&'
    | some '|' => either "||" "|" '|'
    | some ';' => either ";;" ";" ';'
    | some '(' => return .symbol "("
    | some ')' => return .symbol ")"
    | c => wordToken grammar c

def token : Parse Token := do
  let r ← get
  if r.again then
    set { r with again := false }
    return r.last
  else
    let t ← scan grammar maxLength
    modify fun r => { r with last := t }
    return t

def skipNewlines : (fuel : Nat) → Token → Parse Token
  | 0, t => return t
  | fuel + 1, t => do
    if t = .newline then
      pendingDocuments grammar
      skipNewlines fuel (← token grammar)
    else return t

def readWithin (checks : Checks) : (fuel : Nat) → Parse Token
  | 0 => return .ended
  | fuel + 1 => do
    let t ← token grammar
    let t ← if checks.newlines then skipNewlines grammar maxLength t else pure t
    let reserved := checks.reserved || (← get).checks.reserved
    let aliases := checks.aliases || (← get).checks.aliases
    modify fun r => { r with checks := {} }
    let r ← get
    if t ≠ .word ∨ r.quoted then return t
    match r.word.plain? with
    | none => return t
    | some name =>
      let text := String.ofList name
      if reserved ∧ Token.reservedWords.contains text then
        modify fun r => { r with last := .reserved text }
        return .reserved text
      let known := if aliases ∧ r.layers.all (·.name ≠ name) then r.aliases.get? name else none
      match known with
      | none => return t
      | some value =>
        if !value.isEmpty then
          let c ← next
          let follower := match c with
            | some c => Follower.char c
            | none => .ended
          modify fun r => { r with layers := ⟨name, value, follower⟩ :: r.layers }
        readWithin { checks with reserved, aliases } fuel

def read : Parse Token := do readWithin grammar (← get).checks maxLength

def check (checks : Checks) : Parse Unit := modify fun r => { r with checks }

def readAgain : Parse Unit := modify fun r => { r with again := true }

def accept (t : Token) : Parse Bool := do
  if (← read grammar) = t then return true
  readAgain
  return false

def expect (t : Token) : Parse Unit := do
  if (← read grammar) ≠ t then unexpected (some t)

def completeRedirect : Parse Redirect := do
  match (← get).redirect with
  | some (.document fd number) =>
    check { mark := true }
    if (← read grammar) ≠ .word then unexpected none
    let r ← get
    set { r with
      waiting := r.waiting.map fun (w : Waiting) =>
        if w.number = number then { w with mark := r.word.unquoted, quoted := r.quoted } else w }
    return .document fd number
  | some redirect =>
    if (← read grammar) ≠ .word then unexpected none
    let word := (← get).word
    match redirect with
    | .file fd how _ => return .file fd how word
    | .copy fd _ => return .copy fd word
    | .document fd number => return .document fd number
  | none => unexpected none

def redirects : (fuel : Nat) → Parse (List Redirect)
  | 0 => return []
  | fuel + 1 => do
    if (← read grammar) = .redirection then
      let r ← completeRedirect grammar
      return r :: (← redirects fuel)
    else
      readAgain
      return []

def required (goal : Goal) : Parse Command := do
  match ← grammar goal with
  | some c => return c
  | none => unexpected none

def words : (fuel : Nat) → Parse (List Word)
  | 0 => return []
  | fuel + 1 => do
    if (← read grammar) = .word then
      let w := (← get).word
      return w :: (← words fuel)
    else return []

def patterns : (fuel : Nat) → Parse (List Word)
  | 0 => return []
  | fuel + 1 => do
    let w := (← get).word
    if (← read grammar) = .symbol "|" then
      let _ ← read grammar
      return w :: (← patterns fuel)
    else return [w]

def cases : (fuel : Nat) → Parse (List (List Word × Option Command))
  | 0 => return []
  | fuel + 1 => do
    check { newlines := true, reserved := true }
    let t ← read grammar
    if t = .reserved "esac" then return []
    if t = .symbol "(" then let _ ← read grammar
    let ws ← patterns grammar maxLength
    if (← get).last ≠ .symbol ")" then unexpected (some (.symbol ")"))
    let body ← grammar .commands
    check { newlines := true, reserved := true }
    let t ← read grammar
    if t = .reserved "esac" then return [(ws, body)]
    if t ≠ .symbol ";;" then unexpected (some (.symbol ";;"))
    return (ws, body) :: (← cases fuel)

def branches : (fuel : Nat) → Parse Command
  | 0 => unexpected none
  | fuel + 1 => do
    let condition ← required grammar .body
    expect grammar (.reserved "then")
    let body ← required grammar .body
    let t ← read grammar
    if t = .reserved "elif" then return .conditional condition body (some (← branches fuel))
    if t = .reserved "else" then return .conditional condition body (some (← required grammar .body))
    readAgain
    return .conditional condition body none

def eachLoop (line : Nat) : Parse Command := do
  let t ← read grammar
  let r ← get
  let name := (r.word.plain?).getD []
  if t ≠ .word ∨ r.quoted ∨ !isName name then fail "Bad for loop variable"
  check .later
  let ws ← if (← read grammar) = .reserved "in" then do
      let ws ← words grammar maxLength
      let last := (← get).last
      if last ≠ .newline ∧ last ≠ .symbol ";" then unexpected none
      pure ws
    else do
      if (← get).last ≠ .symbol ";" then readAgain
      pure [[.mark, .parameter ['@'] .value [], .mark]]
  check .later
  expect grammar (.reserved "do")
  return .each line name ws (← required grammar .body)

def choice (line : Nat) : Parse Command := do
  expect grammar .word
  let word := (← get).word
  check .later
  expect grammar (.reserved "in")
  return .choice line word (← cases grammar maxLength)

def simple (line : Nat) (assigning : Bool) (assignments arguments : List Word) (rs : List Redirect) :
    (fuel : Nat) → Parse Command
  | 0 => unexpected none
  | fuel + 1 => do
    check { aliases := assigning }
    let done : Parse Command := do
      readAgain
      return .simple line assignments.reverse arguments.reverse rs.reverse
    match ← read grammar with
    | .word =>
      let w := (← get).word
      if assigning ∧ (Word.assignment? w).isSome then
        simple line true (w :: assignments) arguments rs fuel
      else simple line false assignments (w :: arguments) rs fuel
    | .redirection =>
      let r ← completeRedirect grammar
      simple line assigning assignments arguments (r :: rs) fuel
    | .symbol "(" =>
      match assignments, arguments, rs with
      | [], [w], [] =>
        expect grammar (.symbol ")")
        let name := (Word.plain? w).getD []
        if !isName name ∨ specialNames.contains (String.ofList name) then fail "Bad function name"
        let line := (← get).line
        check .later
        return .define line name (← required grammar .command)
      | _, _, _ => done
    | _ => done

def redirected (line : Nat) (c : Command) (rs : List Redirect) : Command :=
  match c, rs with
  | c, [] => c
  | .subshell line body _, rs => .subshell line body rs
  | c, rs => .redirected line c rs

def command : Parse Command := do
  let line := (← get).line
  let compound (c : Command) (last : Option Token) : Parse Command := do
    match last with
    | some t => expect grammar t
    | none => pure ()
    check .command
    return redirected line c (← redirects grammar maxLength)
  match ← read grammar with
  | .reserved "if" => compound (← branches grammar maxLength) (some (.reserved "fi"))
  | .reserved "while" | .reserved "until" =>
    let negated : Bool := (← get).last = .reserved "until"
    let condition ← required grammar .body
    expect grammar (.reserved "do")
    compound (.loop negated condition (← required grammar .body)) (some (.reserved "done"))
  | .reserved "for" => compound (← eachLoop grammar line) (some (.reserved "done"))
  | .reserved "case" => compound (← choice grammar line) none
  | .symbol "(" => compound (.subshell line (← required grammar .body) []) (some (.symbol ")"))
  | .reserved "\x7b" => compound (← required grammar .body) (some (.reserved "\x7d"))
  | .word | .redirection =>
    readAgain
    simple grammar line true [] [] [] maxLength
  | _ => unexpected none

def piped : (fuel : Nat) → Parse (List Command)
  | 0 => return []
  | fuel + 1 => do
    if (← read grammar) = .symbol "|" then
      check .later
      let c ← command grammar
      return c :: (← piped fuel)
    else
      readAgain
      return []

def pipeline : Parse Command := do
  let negated ← accept grammar (.reserved "!")
  if negated then check .command
  let first ← command grammar
  let more ← piped grammar maxLength
  let c := if more.isEmpty then first else .pipeline false (first :: more)
  return if negated then .negated c else c

def chain (first : Command) : (fuel : Nat) → Parse Command
  | 0 => return first
  | fuel + 1 => do
    let t ← read grammar
    if t = .symbol "&&" ∨ t = .symbol "||" then
      check .later
      let second ← pipeline grammar
      chain (if t = .symbol "&&" then .both first second else .either first second) fuel
    else
      readAgain
      return first

def inBackground : Command → Command
  | .pipeline _ cs => .pipeline true cs
  | .redirected line body rs => .background line body rs
  | c => .background 0 c []

def list (line : Bool) (empty : Bool) (before : Option Command) : (fuel : Nat) → Parse (Option Command)
  | 0 => return before
  | fuel + 1 => do
    check (if line then .command else .later)
    match ← read grammar with
    | .newline =>
      pendingDocuments grammar
      return before
    | .ended =>
      pendingDocuments grammar
      modify fun r => { r with again := true, last := .ended }
      return before
    | t =>
      readAgain
      if !line ∧ empty ∧ t.endsList then return before
      let first ← pipeline grammar
      let c ← chain grammar first maxLength
      let t ← read grammar
      let c := if t = .symbol "&" then inBackground c else c
      let all := match before with
        | none => c
        | some b => .sequence b c
      match t with
      | .ended =>
        pendingDocuments grammar
        modify fun r => { r with again := true, last := .ended }
        return some all
      | .newline =>
        readAgain
        list line true (some all) fuel
      | .symbol "&" | .symbol ";" => list line true (some all) fuel
      | _ =>
        if line then unexpected none
        readAgain
        return some all

end

def grammar : (fuel : Nat) → Grammar
  | 0, _ => fail "too deep"
  | fuel + 1, goal =>
    let deeper := grammar fuel
    match goal with
    | .line => list deeper true false none maxLength
    | .body => list deeper false false none maxLength
    | .commands => list deeper false true none maxLength
    | .enclosed => do
      let c ← list deeper false true none maxLength
      expect deeper (.symbol ")")
      let r ← get
      set { r with text := [], layers := [] }
      pendingDocuments deeper
      modify fun s => { s with text := r.text, layers := r.layers, line := r.line }
      return c
    | .command => do return some (← command deeper)

end Parse

end Inlay.Program.Shell
