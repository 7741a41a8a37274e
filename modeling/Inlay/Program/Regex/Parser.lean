import Inlay.Program.Regex.Basic

namespace Inlay.Program.Regex

structure Notation where
  extended : Bool := false
  ignoreCase : Bool := false
  multiline : Bool := false
  deriving DecidableEq, Repr

namespace Notation

def fold (x : Notation) (c : Char) : Char := if x.ignoreCase then c.toUpper else c

end Notation

inductive Token
  | char (c : Char)
  | any
  | openBracket
  | openGroup
  | closeGroup
  | bar
  | star
  | plus
  | question
  | openCount
  | closeCount
  | same (n : Nat)
  | assertion (a : Assertion)
  | set (s : CharSet)
  | backslash
  | ending
  deriving DecidableEq, Repr

def escaped (x : Notation) (c : Char) : Token :=
  let basic (t : Token) : Token := if x.extended then .char c else t
  match c with
  | '|' => basic .bar
  | '(' => basic .openGroup
  | ')' => basic .closeGroup
  | '+' => basic .plus
  | '?' => basic .question
  | '\x7b' => basic .openCount
  | '\x7d' => basic .closeCount
  | '<' => .assertion .wordStart
  | '>' => .assertion .wordEnd
  | 'b' => .assertion .wordEdge
  | 'B' => .assertion .notWordEdge
  | '\x60' => .assertion .textStart
  | '\'' => .assertion .textEnd
  | 'w' => .set (.of isWordChar)
  | 'W' => .set (.of fun d => !isWordChar d)
  | 's' => .set (.of Octets.isSpace)
  | 'S' => .set (.of fun d => !Octets.isSpace d)
  | _ => if '1' ≤ c ∧ c ≤ '9' then .same (Octets.digit c) else .char (x.fold c)

def isEndMark (x : Notation) (rest : Octets) : Bool :=
  x.extended ||
    match rest with
    | [] => true
    | '\\' :: c :: _ => c = '|' || c = ')'
    | _ => false

def next (x : Notation) (anchored : Bool) : Octets → Token × Octets
  | [] => (.ending, [])
  | ['\\'] => (.backslash, [])
  | '\\' :: c :: rest => (escaped x c, rest)
  | c :: rest =>
    let extended (t : Token) : Token := if x.extended then t else .char c
    let t : Token := match c with
      | '*' => .star
      | '.' => .any
      | '[' => .openBracket
      | '^' => if x.extended ∨ anchored then .assertion .lineStart else .char c
      | '$' => if isEndMark x rest then .assertion .lineEnd else .char c
      | '|' => extended .bar
      | '(' => extended .openGroup
      | ')' => extended .closeGroup
      | '+' => extended .plus
      | '?' => extended .question
      | '\x7b' => extended .openCount
      | '\x7d' => extended .closeCount
      | _ => .char (x.fold c)
    (t, rest)

inductive Item
  | char (c : Char)
  | named (holds : Char → Bool)

def symbol (mark : Char) : (fuel : Nat) → Octets → Except RegexFault (Octets × Octets)
  | 0, _ => .error .bracket
  | _, [] | _, [_] => .error .bracket
  | fuel + 1, c :: d :: rest =>
    if c = mark ∧ d = ']' then .ok ([], rest)
    else do
      let (name, rest) ← symbol mark fuel (d :: rest)
      .ok (c :: name, rest)

def maxName : Nat := 32

def className (x : Notation) (name : Octets) : Octets :=
  if x.ignoreCase ∧ (name = "upper".toList ∨ name = "lower".toList) then "alpha".toList else name

def isHyphen (cs : Octets) : Bool :=
  match cs with
  | '-' :: '-' :: '-' :: _ => false
  | '-' :: _ => true
  | _ => false

/-- One item of a bracket expression. A hyphen that stands between two items is refused unless
`hyphen` is set. -/
def item (x : Notation) (hyphen : Bool) (cs : Octets) : Except RegexFault (Item × Octets) :=
  match cs with
  | [] => .error .bracket
  | '[' :: ':' :: rest => do
    let (name, rest) ← symbol ':' maxName rest
    match classMembers (className x name) with
    | some holds => .ok (.named holds, rest)
    | none => .error .className
  | '[' :: c :: rest =>
    if c = '.' ∨ c = '=' then do
      match ← symbol c maxName rest with
      | ([d], rest) => .ok (if c = '.' then .char (x.fold d) else .named (· == x.fold d), rest)
      | _ => .error .collation
    else .ok (.char '[', c :: rest)
  | '-' :: '-' :: '-' :: rest => .ok (.char '-', rest)
  | '-' :: rest =>
    if hyphen ∨ rest.head? = some ']' then .ok (.char '-', rest) else .error .range
  | c :: rest => .ok (.char (x.fold c), rest)

def items (x : Notation) : (fuel : Nat) → (first : Bool) → Octets → Except RegexFault ((Char → Bool) × Octets)
  | 0, _, _ => .error .bracket
  | fuel + 1, first, cs => do
    let (a, rest) ← item x first cs
    let (holds, rest) ← match a with
      | .named holds =>
        if isHyphen rest ∧ (rest.drop 1).head? ≠ some ']' then .error RegexFault.range
        else .ok (holds, rest)
      | .char c =>
        match rest with
        | [] => .error .bracket
        | _ =>
          if !isHyphen rest ∨ (rest.drop 1).head? = some ']' then .ok ((· == c), rest)
          else do
            let (b, rest) ← item x true (rest.drop 1)
            match b with
            | .named _ => .error .range
            | .char d => if d < c then .error .range else .ok (fun e => c ≤ e && e ≤ d, rest)
    match rest with
    | [] => .error .bracket
    | ']' :: rest => .ok (holds, rest)
    | _ => do
      let (more, rest) ← items x fuel false rest
      .ok (fun e => holds e || more e, rest)

def isBareClass (cs : Octets) : Bool :=
  match cs with
  | ':' :: rest =>
    let inner := rest.takeWhile (· ≠ ']')
    inner.getLast? = some ':' && inner.any (· ≠ ':') && !inner.contains '[' && !inner.contains '-'
  | _ => false

def bracket (x : Notation) (cs : Octets) : Except RegexFault (CharSet × Octets) := do
  let (negated, body) : Bool × Octets := match cs with
    | '^' :: rest => (true, rest)
    | _ => (false, cs)
  if body.isEmpty then .error .pattern
  else
    let (holds, rest) ← items x (body.length + 1) true body
    if isBareClass body then .error .bareClass
    else
      let set : CharSet :=
        if negated then .of fun c => !holds c && !(x.multiline && c = '\n') else .of holds
      .ok (set, rest)

/-- Where reading stands: the token that is next, what is after it, how many groups have been
opened, and which are complete. -/
structure Position where
  token : Token := .ending
  rest : Octets := []
  groups : Nat := 0
  complete : List Nat := []

abbrev Parse := StateT Position (Except RegexFault)

def advance (x : Notation) (anchored : Bool) : Parse Unit :=
  modify fun p =>
    let (token, rest) := next x anchored p.rest
    { p with token, rest }

def maxCount : Nat := 0x7FFF

def countNumber (x : Notation) : (fuel : Nat) → Option Nat → Parse (Option Nat)
  | 0, _ => throw .openCount
  | fuel + 1, n => do
    advance x false
    match (← get).token with
    | .ending => throw .openCount
    | .closeCount => return n
    | .char ',' => return n
    | .char c =>
      if c.isDigit then countNumber x fuel (some (min (maxCount + 1) (n.getD 0 * 10 + Octets.digit c)))
      else
        -- Anything else is a fault of the count, or of its end if that is missing.
        let _ ← countNumber x fuel none
        throw .count
    | _ =>
      let _ ← countNumber x fuel none
      throw .count

def count (x : Notation) : Parse (Nat × Option Nat) := do
  let fuel := (← get).rest.length + 2
  let least ← countNumber x fuel none
  match (← get).token, least with
  | .closeCount, some n => return (n, some n)
  | .closeCount, none => throw .count
  | _, _ =>
    let most ← countNumber x fuel none
    if (← get).token ≠ .closeCount ∨ most.any (· < least.getD 0) then throw .count
    else return (least.getD 0, most)

def appendTo (a b : Option Regex) : Option Regex :=
  match a, b with
  | some a, some b => some (.append a b)
  | some a, none => some a
  | none, b => b

def copy : Regex → Regex
  | .append a b => .append (copy a) (copy b)
  | .either a b => .either (copy a) (copy b)
  | .star a => .star (copy a)
  | .maybe a => .maybe (copy a)
  | .group n _ a => .group n false (copy a)
  | r => r

def times (r : Regex) : Nat → Regex
  | 0 | 1 => r
  | n + 1 => .append (times r n) (copy r)

def upTo (r : Regex) : Nat → Regex
  | 0 | 1 => .maybe r
  | n + 1 => .maybe (.append (upTo r n) (copy r))

def markLoop : Regex → Regex
  | .group n _ a => .group n true a
  | r => r

def repeated (r : Regex) (least : Nat) (most : Option Nat) : Option Regex :=
  let further (r : Regex) : Option Regex := match most with
    | none => some (.star (markLoop r))
    | some most => if most ≤ least then none else some (upTo (markLoop r) (most - least))
  if least = 0 then further r else appendTo (some (times r least)) (further (copy r))

def repetitions (x : Notation) : (fuel : Nat) → Option Regex → Parse (Option Regex)
  | 0, r => return r
  | fuel + 1, r => do
    let t := (← get).token
    let range ← match t with
      | .star => pure (some (0, none))
      | .plus => pure (some (1, none))
      | .question => pure (some (0, some 1))
      | .openCount => do
        let (least, most) ← count x
        if maxCount < most.getD least then throw .tooBig
        pure (some (least, most))
      | _ => pure none
    match range with
    | none => return r
    | some (least, most) =>
      advance x false
      let t := (← get).token
      if !x.extended ∧ (t = .star ∨ t = .openCount) then throw .repetition
      repetitions x fuel (r.bind fun r => repeated r least most)

mutual

def alternatives (x : Notation) (inGroup : Bool) : (fuel : Nat) → Parse (Option Regex)
  | 0 => throw .tooBig
  | fuel + 1 => do
    let before := (← get).complete
    let first ← branch x inGroup fuel none
    furtherAlternatives x inGroup before fuel first

def furtherAlternatives (x : Notation) (inGroup : Bool) (before : List Nat) :
    (fuel : Nat) → Option Regex → Parse (Option Regex)
  | 0, _ => throw .tooBig
  | fuel + 1, r => do
    if (← get).token ≠ .bar then return r
    advance x true
    let complete := (← get).complete
    modify fun p => { p with complete := before }
    let more ← branch x inGroup fuel none
    modify fun p => { p with complete := complete ++ p.complete }
    let r := match r, more with
      | some a, some b => Regex.either a b
      | some a, none | none, some a => .maybe a
      | none, none => .empty
    furtherAlternatives x inGroup before fuel (some r)

def branch (x : Notation) (inGroup : Bool) : (fuel : Nat) → Option Regex → Parse (Option Regex)
  | 0, _ => throw .tooBig
  | fuel + 1, r => do
    let t := (← get).token
    if t = .bar ∨ t = .ending ∨ (inGroup ∧ t = .closeGroup) then return r
    let a ← piece x fuel
    branch x inGroup fuel (appendTo r a)

def piece (x : Notation) : (fuel : Nat) → Parse (Option Regex)
  | 0 => throw .tooBig
  | fuel + 1 => do
    let p ← get
    let single (s : CharSet) : Parse (Option Regex) := do
      advance x false
      repetitions x p.rest.length (some (.one s))
    let literal (c : Char) : Parse (Option Regex) := single (.of (· == c))
    match p.token with
    | .char c => literal c
    | .any => single (.of fun c => !(x.multiline && c = '\n'))
    | .set s => single s
    | .openBracket =>
      let (s, rest) ← bracket x p.rest
      set { p with rest := rest }
      single s
    | .same n =>
      if p.complete.contains n then
        advance x false
        repetitions x p.rest.length (some (.same n))
      else throw .backReference
    | .assertion a =>
      advance x false
      return some (.assertion a)
    | .openGroup =>
      let n := p.groups + 1
      set { p with groups := n }
      advance x true
      let body ← if (← get).token = .closeGroup then pure none else alternatives x true fuel
      if (← get).token ≠ .closeGroup then throw .openGroup
      modify fun p => { p with complete := n :: p.complete }
      advance x false
      repetitions x p.rest.length (some (.group n false (body.getD .empty)))
    | .closeGroup => throw .closeGroup
    | .star => if x.extended then throw .repetition else literal '*'
    | .plus => if x.extended then throw .repetition else literal '+'
    | .question => if x.extended then throw .repetition else literal '?'
    | .openCount => throw .repetition
    | .closeCount => literal '\x7d'
    | .backslash => throw .trailingBackslash
    | .bar | .ending => return none

end

def parse (x : Notation) (source : Octets) : Except RegexFault (Regex × Nat) := do
  let read : Parse (Option Regex) := do
    advance x true
    alternatives x false (4 * source.length + 8)
  let (r, p) ← read.run { rest := source }
  .ok (r.getD .empty, p.groups)

end Inlay.Program.Regex
