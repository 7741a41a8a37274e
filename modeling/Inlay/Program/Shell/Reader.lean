import Inlay.Program.Shell.Syntax
import Inlay.Table

namespace Inlay.Program.Shell

inductive Token
  | ended
  | newline
  | word
  | redirection
  | symbol (s : String)
  | reserved (s : String)
  deriving DecidableEq, Repr

namespace Token

def name : Token → String
  | .ended => "end of file"
  | .newline => "newline"
  | .word => "word"
  | .redirection => "redirection"
  | .symbol s | .reserved s => "\"" ++ s ++ "\""

def reservedWords : List String :=
  ["!", "case", "do", "done", "elif", "else", "esac", "fi", "for", "if", "in", "then", "until", "while",
    "\x7b", "\x7d"]

def endsList : Token → Bool
  | .ended => true
  | .symbol s => s == ")" || s == ";;"
  | .reserved s => ["do", "done", "elif", "else", "esac", "fi", "then", "\x7d"].contains s
  | _ => false

end Token

structure Checks where
  newlines : Bool := false
  reserved : Bool := false
  aliases : Bool := false
  mark : Bool := false
  deriving DecidableEq, Repr

namespace Checks

def command : Checks := { reserved := true, aliases := true }

def later : Checks := { command with newlines := true }

end Checks

inductive Follower
  | char (c : Char)
  | ended
  | read
  deriving DecidableEq, Repr

/-- The text of an alias while it is read, with the character after the name. The alias is not looked
for in it, nor in a word that this character ends. -/
structure Layer where
  name : Octets
  text : Octets
  follower : Follower
  deriving DecidableEq, Repr

structure Waiting where
  number : Nat
  mark : Octets
  bare : Bool
  quoted : Bool
  deriving DecidableEq, Repr

structure Reader where
  text : Octets
  layers : List Layer := []
  line : Nat := 1
  aliases : Table Octets Octets := .empty
  last : Token := .newline
  again : Bool := false
  checks : Checks := {}
  word : Word := []
  quoted : Bool := false
  redirect : Option Redirect := none
  waiting : List Waiting := []
  documents : Array Word := #[]

structure SyntaxFault where
  line : Nat
  message : String
  deriving DecidableEq, Repr

abbrev Parse := StateT Reader (Except SyntaxFault)

namespace Parse

def maxLength : Nat := 0x1000000

def fail {α : Type} (message : String) : Parse α := do throw ⟨(← get).line, message⟩

def unexpected {α : Type} (expected : Option Token) : Parse α := do
  let last := (← get).last.name
  match expected with
  | some t => fail (last ++ " unexpected (expecting " ++ t.name ++ ")")
  | none => fail (last ++ " unexpected")

def nextLine : Parse Unit := modify fun r => { r with line := r.line + 1 }

def isBlank (c : Char) : Bool := c = ' ' || c = '\t'

def leave (r : Reader) (l : Layer) : Reader :=
  let blank := ((r.aliases.get? l.name).bind List.getLast?).any isBlank
  { r with checks := { r.checks with aliases := r.checks.aliases || blank } }

def take (r : Reader) : List Layer → Option Char × Reader
  | [] =>
    match r.text with
    | c :: cs => (some c, { r with layers := [], text := cs })
    | [] => (none, { r with layers := [] })
  | l :: ls =>
    match l.text, l.follower with
    | c :: cs, _ => (some c, { r with layers := { l with text := cs } :: ls })
    | [], .char c => (some c, leave { r with layers := { l with follower := .read } :: ls } l)
    | [], .ended => (none, leave { r with layers := l :: ls } l)
    | [], .read => take r ls

def next : Parse (Option Char) := modifyGet fun r => take r r.layers

def back (cs : Octets) : Parse Unit :=
  modify fun r =>
    match r.layers with
    | l :: ls => { r with layers := { l with text := cs ++ l.text } :: ls }
    | [] => { r with text := cs ++ r.text }

def unread (c : Option Char) : Parse Unit := if let some c := c then back [c] else pure ()

def joinedWithin : (fuel : Nat) → Parse (Option Char)
  | 0 => return none
  | fuel + 1 => do
    match ← next with
    | some '\\' =>
      match ← next with
      | some '\n' =>
        nextLine
        joinedWithin fuel
      | d =>
        unread d
        return some '\\'
    | c => return c

def joined : Parse (Option Char) := joinedWithin maxLength

def follows (c : Char) : Parse Bool := do
  let d ← joined
  if d = some c then return true
  unread d
  return false

end Parse

end Inlay.Program.Shell
