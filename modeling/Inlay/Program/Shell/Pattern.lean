import Inlay.Program.Octets

namespace Inlay.Program.Shell

/-- A character of a pattern; one that is `literal` stands for itself. -/
structure Sign where
  char : Char
  literal : Bool
  deriving DecidableEq, Repr

abbrev Pattern := List Sign

namespace Pattern

def ofSigns : List Sign → Pattern
  | ⟨'\\', false⟩ :: s :: rest => { s with literal := true } :: ofSigns rest
  | s :: rest => s :: ofSigns rest
  | [] => []

def isWild (p : List Sign) : Bool := p.any fun s => !s.literal && (s.char = '*' || s.char = '?' || s.char = '[')

def class? (name : String) : Option (Char → Bool) :=
  match name with
  | "alnum" => some Char.isAlphanum
  | "alpha" => some Char.isAlpha
  | "blank" => some fun c => c = ' ' || c = '\t'
  | "cntrl" => some fun c => c < ' ' || c = '\x7F'
  | "digit" => some Char.isDigit
  | "graph" => some fun c => ' ' < c && c < '\x7F'
  | "lower" => some Char.isLower
  | "print" => some fun c => ' ' ≤ c && c < '\x7F'
  | "punct" => some fun c => ' ' < c && c < '\x7F' && !c.isAlphanum
  | "space" => some Octets.isSpace
  | "upper" => some Char.isUpper
  | "xdigit" => some (Octets.isDigitOf 16)
  | _ => none

def classAt? (p : Pattern) : Option ((Char → Bool) × Pattern) :=
  match p with
  | ⟨':', false⟩ :: rest =>
    let name := rest.takeWhile fun s => s.char ≠ ':'
    match rest.drop name.length with
    | ⟨':', false⟩ :: ⟨']', false⟩ :: after =>
      (class? (String.ofList (name.map (·.char)))).map fun f => (f, after)
    | _ => none
  | _ => none

/-- Whether a bracket expression has a character in it from here on, and the pattern after it. The
first character does not end it. -/
def bracket (d : Char) : (fuel : Nat) → (first : Bool) → Pattern → Option (Bool × Pattern)
  | 0, _, _ | _, _, [] => none
  | fuel + 1, first, s :: rest =>
    let further (found : Bool) (rest : Pattern) : Option (Bool × Pattern) :=
      (bracket d fuel false rest).map fun (more, rest) => (found || more, rest)
    if s = ⟨']', false⟩ ∧ !first then some (false, rest)
    else
      match if s = ⟨'[', false⟩ then classAt? rest else none with
      | some (f, after) => further (f d) after
      | none =>
        match rest with
        | ⟨'-', false⟩ :: e :: after =>
          if e = ⟨']', false⟩ then further (d = s.char) rest
          else further (s.char ≤ d && d ≤ e.char) after
        | _ => further (d = s.char) rest

def isMatch : (fuel : Nat) → Pattern → Octets → Bool
  | 0, _, _ => false
  | _, [], o => o.isEmpty
  | fuel + 1, s :: p, o =>
    match s.literal, s.char, o with
    | false, '*', o =>
      isMatch fuel p o ||
        match o with
        | _ :: ds => isMatch fuel (s :: p) ds
        | [] => false
    | _, _, [] => false
    | false, '?', _ :: ds => isMatch fuel p ds
    | false, '[', d :: ds =>
      let (negated, body) := match p with
        | ⟨'!', false⟩ :: rest => (true, rest)
        | rest => (false, rest)
      match bracket d (body.length + 1) true body with
      | some (found, rest) => found != negated && isMatch fuel rest ds
      | none => d = '[' && isMatch fuel p ds
    | _, c, d :: ds => c = d && isMatch fuel p ds

def accepts (p : Pattern) (o : Octets) : Bool := isMatch (p.length + o.length + 2) p o

def front? (longest : Bool) (p : Pattern) (o : Octets) : Option Nat :=
  let lengths := List.range (o.length + 1)
  (if longest then lengths.reverse else lengths).find? fun n => p.accepts (o.take n)

def back? (longest : Bool) (p : Pattern) (o : Octets) : Option Nat :=
  let lengths := List.range (o.length + 1)
  (if longest then lengths else lengths.reverse).find? fun n => p.accepts (o.drop n)

end Pattern

end Inlay.Program.Shell
