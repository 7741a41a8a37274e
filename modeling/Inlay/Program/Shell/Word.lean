import Inlay.Program.Shell.Reader

namespace Inlay.Program.Shell

inductive Goal
  | line
  | body
  | commands
  | enclosed
  | command
  deriving DecidableEq, Repr

abbrev Grammar := Goal → Parse (Option Command)

inductive Style
  | plain
  | doubled
  | single
  | arithmetic
  deriving DecidableEq, Repr

structure Frame where
  style : Style
  doubled : Bool := false
  braces : Nat := 0
  doubledBraces : Nat := 0
  inner : Bool := false
  forBraces : Bool := false
  parentheses : Nat := 0

inductive Unclosed
  | parameter (name : Octets) (operator : Operator)
  | arithmetic

structure Draft where
  frame : Frame
  outer : List Frame := []
  quoted : Bool := false
  parts : List Segment := []
  unclosed : List (Unclosed × List Segment) := []

namespace Draft

def add (d : Draft) (s : Segment) : Draft := { d with parts := s :: d.parts }

def char (d : Draft) (c : Char) : Draft := d.add (.char c)

def opening (d : Draft) (u : Unclosed) : Draft := { d with parts := [], unclosed := (u, d.parts) :: d.unclosed }

def close (d : Draft) : Draft :=
  match d.unclosed with
  | [] => d
  | (u, before) :: rest =>
    let s := match u with
      | .parameter name operator => Segment.parameter name operator d.parts.reverse
      | .arithmetic => .arithmetic d.parts.reverse
    { d with parts := s :: before, unclosed := rest }

def setFrame (d : Draft) (f : Frame) : Draft := { d with frame := f }

def push (d : Draft) (f : Frame) : Draft := { d with frame := f, outer := d.frame :: d.outer }

def pop (d : Draft) : Draft :=
  match d.outer with
  | [] => d
  | f :: rest => { d with frame := f, outer := rest }

def word (d : Draft) : Word := d.parts.reverse

end Draft

namespace Parse

def isPatternChar (c : Char) : Bool := "!*?[=~:/-]".toList.contains c

def isOperatorChar (c : Char) : Bool := "<>();&| \t".toList.contains c

def nameWhile (p : Char → Bool) : (fuel : Nat) → Option Char → Parse (Octets × Option Char)
  | 0, c => return ([], c)
  | fuel + 1, c => do
    match c with
    | some d =>
      if p d then
        let (name, c) ← nameWhile p fuel (← joined)
        return (d :: name, c)
      else return ([], c)
    | none => return ([], none)

inductive Form
  | bare
  | braced
  | length
  deriving DecidableEq, Repr

def signed (form : Form) (c : Char) : Parse (Option (Form × Octets × Option Char)) := do
  let after ← joined
  let isSpecial (c : Option Char) : Bool := c.any isSpecialParameter
  let plain : Option (Form × Octets × Option Char) :=
    if isSpecialParameter c then some (form, [c], after) else none
  if form = .braced ∧ c = '#' then
    if after.any isNameChar then
      let digits := after.any Char.isDigit
      let (name, c) ← nameWhile (if digits then Char.isDigit else isNameChar) maxLength after
      return some (.length, name, c)
    let later ← joined
    if after = some '\x7d' ∨ later ≠ some '\x7d' then
      unread later
      return some (.braced, ['#'], after)
    else if isSpecial after then return some (.length, after.toList, later)
    else
      unread later
      return none
  else
    if plain.isNone then unread after
    return plain

/-- The parameter after a dollar sign, its name and the character after it; none if there is no such
parameter. -/
def parameterName (form : Form) (c : Option Char) : Parse (Option (Form × Octets × Option Char)) := do
  match c with
  | some d =>
    if isNameStart d then
      let (name, c) ← nameWhile isNameChar maxLength c
      return some (form, name, c)
    else if d.isDigit then
      if form = .bare then return some (form, [d], ← joined)
      let (name, c) ← nameWhile Char.isDigit maxLength c
      return some (form, name, c)
    else if d = '\x7d' then
      unread c
      return none
    else signed form d
  | none => return none

def operator (c : Option Char) : Parse Operator := do
  let ofSign (orNull : Bool) (c : Option Char) : Operator :=
    match c with
    | some '\x7d' => .value
    | some '-' => .otherwise orNull
    | some '+' => .instead orNull
    | some '?' => .demand orNull
    | some '=' => .assign orNull
    | _ => .unknown
  match c with
  | some ':' => return ofSign true (← joined)
  | some '%' => return .trim false (← follows '%')
  | some '#' => return .trim true (← follows '#')
  | c => return ofSign false c

def openBrace (d : Draft) (name : Octets) (o : Operator) : Draft :=
  let style : Style := match o, d.frame.style with
    | .trim .., _ => .plain
    | _, .arithmetic => .doubled
    | _, style => style
  let d := if style ≠ d.frame.style ∨ d.frame.inner then
      d.push { style, doubled := style ≠ .plain, forBraces := true }
    else d
  let f := d.frame
  (d.setFrame { f with
    braces := f.braces + 1
    doubledBraces := if f.doubled then f.doubledBraces + 1 else f.doubledBraces }).opening (.parameter name o)

def parameter (d : Draft) (c : Option Char) : Parse Draft := do
  let braced : Bool := c = some '\x7b'
  let form : Form := if braced then .braced else .bare
  let c ← if braced then joined else pure c
  match ← parameterName form c with
  | none => return openBrace d [] .unknown
  | some (.bare, name, c) =>
    unread c
    return d.add (.parameter name .value [])
  | some (.length, name, c) =>
    unread c
    return openBrace d name (if c = some '\x7d' then .length else .unknown)
  | some (.braced, name, c) =>
    let o ← operator c
    if o = .value ∧ c = some '\x7d' then return d.add (.parameter name .value [])
    return openBrace d name o

def backquoted (doubled : Bool) : (fuel : Nat) → Parse Octets
  | 0 => return []
  | fuel + 1 => do
    match ← joined with
    | none => fail "EOF in backquote substitution"
    | some '\x60' => return []
    | some '\\' =>
      match ← next with
      | none => return '\\' :: (← backquoted doubled fuel)
      | some c =>
        let rest ← backquoted doubled fuel
        let dropped : Bool := c = '\\' || c = '\x60' || c = '$' || (doubled && c = '"')
        return if dropped then c :: rest else '\\' :: c :: rest
    | some c =>
      if c = '\n' then nextLine
      return c :: (← backquoted doubled fuel)

def within (grammar : Grammar) (text : Octets) : Parse (Option Command) := do
  let r ← get
  set { r with text, layers := [], line := 1, again := false, waiting := [] }
  let c ← grammar .commands
  modify fun s =>
    { s with text := r.text, layers := r.layers, line := r.line, again := false, waiting := r.waiting }
  return c

section

variable (grammar : Grammar)

def dollar (d : Draft) : Parse Draft := do
  let c ← joined
  let starts : Bool := c.any fun c => c = '(' || c = '\x7b' || isNameStart c || isSpecialParameter c
  if (← get).checks.mark ∨ !starts then
    unread c
    return d.char '$'
  if c ≠ some '(' then return ← parameter d c
  if ← follows '(' then
    return (d.push { style := .arithmetic, doubled := true }).opening .arithmetic
  else
    let waiting := (← get).waiting
    modify fun r => { r with waiting := [] }
    let c ← grammar .enclosed
    modify fun r => { r with waiting, again := false }
    return d.add (.command c)

def backquote (d : Draft) : Parse Draft := do
  if (← get).checks.mark then return { d with quoted := true }.char '\x60'
  let text ← backquoted d.frame.doubled maxLength
  return d.add (.command (← within grammar text))

def backslash (document : Bool) (d : Draft) : Parse Draft := do
  match ← next with
  | none => return d.add (.escaped '\\')
  | some c =>
    let f := d.frame
    let kept : Bool := f.doubled && c ≠ '\\' && c ≠ '\x60' && c ≠ '$' &&
      (c ≠ '"' || (document && f.braces = 0)) && (c ≠ '\x7d' || f.braces = 0)
    let d := if kept then d.add (.escaped '\\') else d
    return { d.add (.escaped c) with quoted := true }

def toggle (document double : Bool) (d : Draft) : Draft :=
  let f := d.frame
  let d := if double ∧ f.braces ≠ 0 then d.setFrame { f with inner := !f.inner } else d
  if document then d else d.add .mark

def endQuotes (document : Bool) (c : Char) (d : Draft) : Draft :=
  let f := d.frame
  if document ∧ f.braces = 0 then d.char c
  else
    let d := if f.doubledBraces = 0 then d.setFrame { f with style := .plain, doubled := false } else d
    toggle document (c = '"') { d with quoted := true }

def closeBrace (d : Draft) : Draft :=
  let f := d.frame
  if f.inner ∨ f.braces = 0 then d.char '\x7d'
  else
    let f := { f with braces := f.braces - 1 }
    let d := if f.braces = 0 ∧ f.forBraces then d.pop
      else d.setFrame { f with doubledBraces := f.doubledBraces - 1 }
    d.close

def closeParenthesis (d : Draft) : Parse Draft := do
  let f := d.frame
  if f.parentheses ≠ 0 then return (d.setFrame { f with parentheses := f.parentheses - 1 }).char ')'
  if ← follows ')' then return d.pop.close
  return d.char ')'

def step (document : Bool) (c : Char) (d : Draft) : Parse (Option Draft) := do
  let f := d.frame
  match f.style, c with
  | .single, '\'' => return some (endQuotes document c d)
  | .single, c =>
    let special : Bool := (c = '\\' || isPatternChar c) && !document
    return some (d.add (if special then .escaped c else .char c))
  | _, '\\' => return some (← backslash document d)
  | _, '$' => return some (← dollar grammar d)
  | _, '\x60' => return some (← backquote grammar d)
  | _, '\x7d' => return some (closeBrace d)
  | .plain, '\'' => return some (toggle document false (d.setFrame { f with style := .single }))
  | .plain, '"' => return some (toggle document true (d.setFrame { f with style := .doubled, doubled := true }))
  | .doubled, '"' => return some (endQuotes document c d)
  | .arithmetic, '(' => return some ((d.setFrame { f with parentheses := f.parentheses + 1 }).char c)
  | .arithmetic, ')' => return some (← closeParenthesis d)
  | .plain, c =>
    if isOperatorChar c ∧ f.braces = 0 then return none
    return some (d.char c)
  | .doubled, c => return some (d.add (if isPatternChar c then .escaped c else .char c))
  | .arithmetic, c => return some (d.char c)

def skipTabs : (fuel : Nat) → Option Char → Parse (Option Char)
  | 0, c => return c
  | fuel + 1, c => do
    if c = some '\t' then skipTabs fuel (← next) else return c

/-- Reads on as long as the characters are those of the mark; the result is what was read, the latest
first, and whether it is the mark on a line of its own. -/
def matchMark : Octets → Option Char → Octets → Parse (Bool × Octets)
  | [], c, read => return (c = none || c = some '\n', c.toList ++ read)
  | m :: ms, c, read => do
    if c = some m then matchMark ms (← next) (m :: read) else return (false, c.toList ++ read)

def lineStart (w : Waiting) (c : Option Char) : Parse (Option Char) := do
  let c ← if w.bare then skipTabs maxLength c else pure c
  let (found, read) ← matchMark w.mark c []
  if found then
    nextLine
    return none
  else
    match read.reverse with
    | [] => return none
    | c :: cs =>
      back cs
      return some c

def segments (document : Option Waiting) : (fuel : Nat) → Option Char → Draft → Parse (Draft × Option Char)
  | 0, c, d => return (d, c)
  | fuel + 1, c, d => do
    match c with
    | none => return (d, none)
    | some '\n' =>
      if d.frame.style = .plain ∧ d.frame.braces = 0 then return (d, c)
      nextLine
      let d := d.char '\n'
      let c ← if d.frame.style = .single then next else joined
      let c ← match document with
        | some w => lineStart w c
        | none => pure c
      segments document fuel c d
    | some ch =>
      match ← step grammar document.isSome ch d with
      | none => return (d, c)
      | some d =>
        let c ← if d.frame.style = .single then next else joined
        segments document fuel c d

def finish (document : Bool) (d : Draft) : Parse Unit := do
  if d.frame.style = .arithmetic then fail "Missing '))'"
  if d.frame.style ≠ .plain ∧ !document then fail "Unterminated quoted string"
  if d.frame.braces ≠ 0 then fail "Missing '\x7d'"

def document (w : Waiting) : Parse Unit := do
  let c ← if w.quoted then next else joined
  let c ← lineStart w c
  let style : Style := if w.quoted then .single else .doubled
  let (d, _) ← segments grammar (some w) maxLength c { frame := { style, doubled := !w.quoted } }
  finish true d
  modify fun r => { r with documents := r.documents.set! w.number d.word }

def pendingDocuments : Parse Unit := do
  let waiting := (← get).waiting
  modify fun r => { r with waiting := [] }
  waiting.forM (document grammar)

end

end Parse

end Inlay.Program.Shell
