import Inlay.Program.Regex.Basic

namespace Inlay.Program.Regex

inductive Step
  | one (s : CharSet)
  | assertion (a : Assertion)
  | openGroup (n : Nat)
  | closeGroup (n : Nat) (inLoop : Bool)
  | same (n : Nat)
  | split (first second : Nat)
  | goto (target : Nat)
  | done
  deriving DecidableEq, Repr

def steps (start : Nat) : Regex → List Step
  | .empty => []
  | .one s => [.one s]
  | .assertion a => [.assertion a]
  | .same n => [.same n]
  | .append a b =>
    let front := steps start a
    front ++ steps (start + front.length) b
  | .either a b =>
    let front := steps (start + 1) a
    let back := steps (start + front.length + 2) b
    .split (start + 1) (start + front.length + 2) :: front ++
      .goto (start + front.length + back.length + 2) :: back
  | .star a =>
    let body := steps (start + 1) a
    .split (start + 1) (start + body.length + 2) :: body ++ [.goto start]
  | .maybe a =>
    let body := steps (start + 1) a
    .split (start + 1) (start + body.length + 1) :: body
  | .group n inLoop a => .openGroup n :: steps (start + 1) a ++ [.closeGroup n inLoop]

structure Machine where
  steps : Array Step
  groups : Nat
  remembers : Bool
  deriving DecidableEq, Repr

def compile (r : Regex) (groups : Nat) : Machine :=
  let all := steps 0 r
  let remembers := all.any fun s =>
    match s with
    | .same _ => true
    | _ => false
  { steps := (all ++ [Step.done]).toArray, groups, remembers }

structure Subject where
  chars : Array Char
  multiline : Bool := false

namespace Subject

def isWordAt (t : Subject) (i : Nat) : Bool := t.chars[i]?.any isWordChar

def isWordBefore (t : Subject) (i : Nat) : Bool := i ≠ 0 && t.isWordAt (i - 1)

def holds (t : Subject) (i : Nat) : Assertion → Bool
  | .lineStart => i = 0 || (t.multiline && t.chars[i - 1]? == some '\n')
  | .lineEnd => i = t.chars.size || (t.multiline && t.chars[i]? == some '\n')
  | .textStart => i = 0
  | .textEnd => i = t.chars.size
  | .wordStart => !t.isWordBefore i && t.isWordAt i
  | .wordEnd => t.isWordBefore i && !t.isWordAt i
  | .wordEdge => t.isWordBefore i != t.isWordAt i
  | .notWordEdge => t.isWordBefore i == t.isWordAt i

end Subject

end Inlay.Program.Regex
