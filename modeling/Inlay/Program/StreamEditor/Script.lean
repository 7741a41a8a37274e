import Inlay.Program.Regex.Search

namespace Inlay.Program.StreamEditor

structure Search where
  how : Regex.Notation
  machine : Regex.Machine
  deriving DecidableEq, Repr

namespace Search

def subject (s : Search) (text : Octets) : Regex.Subject :=
  ⟨(text.map s.how.fold).toArray, s.how.multiline⟩

def find (s : Search) (t : Regex.Subject) (start : Nat) : Option (Array (Option Regex.Span)) :=
  Regex.search s.machine t start

end Search

inductive Address
  | line (n : Nat)
  | every (first step : Nat)
  | last
  | matching (s : Option Search)
  deriving DecidableEq, Repr

inductive Limit
  | address (a : Address)
  | after (count : Nat)
  | multiple (n : Nat)
  deriving DecidableEq, Repr

structure Selection where
  first : Option Address := none
  limit : Option Limit := none
  negated : Bool := false
  deriving DecidableEq, Repr

inductive Casing
  | plain
  | upper
  | lower
  deriving DecidableEq, Repr

inductive Insertion
  | text (o : Octets)
  | group (n : Nat)
  | casing (c : Casing)
  | firstCasing (c : Casing)
  deriving DecidableEq, Repr

structure Substitution where
  search : Option Search
  replacement : List Insertion
  everywhere : Bool := false
  occurrence : Nat := 1
  print : Bool := false
  write : Option Octets := none
  deriving DecidableEq, Repr

namespace Substitution

def groups (s : Substitution) : Nat :=
  s.replacement.foldl (fun n i =>
    match i with
    | .group k => max n k
    | _ => n) 0

end Substitution

inductive Condition
  | always
  | replaced
  | notReplaced
  deriving DecidableEq, Repr

inductive Action
  | nothing
  | group (stop : Nat)
  | branch (c : Condition) (label : Octets)
  | substitute (s : Substitution)
  | transliterate (pairs : List (Char × Char))
  | append (text : Octets)
  | insert (text : Octets)
  | change (text : Octets)
  | appendFile (name : Octets)
  | appendLine (name : Octets)
  | write (name : Octets)
  | writeFirst (name : Octets)
  | print
  | printFirst
  | list (width : Option Nat)
  | number
  | fileName
  | delete
  | deleteFirst
  | next
  | appendNext
  | hold
  | holdAppend
  | get
  | getAppend
  | exchange
  | clear
  | quit (status : Nat) (shown : Bool)
  deriving DecidableEq, Repr

structure Command where
  selection : Selection
  action : Action
  deriving DecidableEq, Repr

structure Script where
  commands : Array Command := #[]
  labels : List (Octets × Nat) := []
  silent : Bool := false
  deriving DecidableEq, Repr

inductive Piece
  | expression (number : Nat) (text : Octets)
  | file (name text : Octets)
  deriving DecidableEq, Repr

namespace Piece

def text : Piece → Octets
  | .expression _ text => text
  | .file _ text => text

def place (p : Piece) (left : Nat) : Octets :=
  match p with
  | .expression number text =>
    "-e expression #".toList ++ Octets.ofNat number ++ ", char ".toList ++ Octets.ofNat (text.length - left)
  | .file name text =>
    let lines := ((text.take (text.length - left)).filter (· = '\n')).length + 1
    "file ".toList ++ name ++ " line ".toList ++ Octets.ofNat lines

def afterEnd (p : Piece) (left : Nat) : Octets :=
  match p with
  | .expression _ text => p.place text.length
  | .file .. => p.place left

end Piece

/-- What is wrong with a script, and the status that it is left with. -/
structure Fault where
  message : Octets
  status : Nat := 1
  deriving DecidableEq, Repr

namespace Fault

def here (place : Octets) (message : String) : Fault := ⟨place ++ ": ".toList ++ message.toList, 1⟩

def panicStatus : Nat := 4

def panic (message : Octets) : Fault := ⟨message, panicStatus⟩

end Fault

end Inlay.Program.StreamEditor
