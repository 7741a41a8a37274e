import Inlay.Program.Octets

namespace Inlay.Program.Shell

/-- What is made of a parameter with the word that stands after it. `orNull` counts an empty parameter
as one that is not set. -/
inductive Operator
  | value
  | length
  | otherwise (orNull : Bool)
  | instead (orNull : Bool)
  | assign (orNull : Bool)
  | demand (orNull : Bool)
  | trim (front longest : Bool)
  | unknown
  deriving DecidableEq, Repr

inductive Opening
  | read
  | write
  | overwrite
  | append
  | update
  deriving DecidableEq, Repr

mutual

inductive Segment
  | char (c : Char)
  | escaped (c : Char)
  | mark
  | parameter (name : List Char) (operator : Operator) (word : List Segment)
  | command (c : Option Command)
  | arithmetic (word : List Segment)

/-- A file or a text that a command has under a descriptor while it runs. -/
inductive Redirect
  | file (descriptor : Nat) (how : Opening) (name : List Segment)
  | copy (descriptor : Nat) (source : List Segment)
  | document (descriptor number : Nat)

inductive Command
  | simple (line : Nat) (assignments arguments : List (List Segment)) (redirects : List Redirect)
  | pipeline (background : Bool) (commands : List Command)
  | redirected (line : Nat) (body : Command) (redirects : List Redirect)
  | background (line : Nat) (body : Command) (redirects : List Redirect)
  | subshell (line : Nat) (body : Command) (redirects : List Redirect)
  | both (first second : Command)
  | either (first second : Command)
  | sequence (first second : Command)
  | negated (body : Command)
  | conditional (condition body : Command) (other : Option Command)
  | loop (negated : Bool) (condition body : Command)
  | each (line : Nat) (name : List Char) (words : List (List Segment)) (body : Command)
  | choice (line : Nat) (word : List Segment) (cases : List (List (List Segment) × Option Command))
  | define (line : Nat) (name : List Char) (body : Command)

end

abbrev Word := List Segment

def isNameStart (c : Char) : Bool := c.isAlpha || c = '_'

def isNameChar (c : Char) : Bool := c.isAlphanum || c = '_'

def isName : Octets → Bool
  | c :: cs => isNameStart c && cs.all isNameChar
  | [] => false

def isSpecialParameter (c : Char) : Bool := "#?$!-*@".toList.contains c || c.isDigit

namespace Word

def leading : Word → Octets
  | .char c :: w => c :: leading w
  | _ => []

def plain? : Word → Option Octets
  | [] => some []
  | .char c :: w => (plain? w).map (c :: ·)
  | _ => none

def assignment? (w : Word) : Option (Octets × Word) :=
  let name := (leading w).takeWhile (· ≠ '=')
  if isName name ∧ name.length < (leading w).length then some (name, w.drop (name.length + 1)) else none

def unquoted : Word → Octets
  | [] => []
  | .char c :: w | .escaped c :: w => c :: unquoted w
  | _ :: w => unquoted w

end Word

end Inlay.Program.Shell
