import Inlay.Diff.Midpoint

namespace Inlay.Diff

abbrev Line := String

def cutLines : List Char → List (List Char)
  | [] => []
  | '\r' :: '\n' :: rest => ['\r', '\n'] :: cutLines rest
  | c :: rest =>
    if c = '\n' ∨ c = '\r' then [c] :: cutLines rest
    else
      match cutLines rest with
      | [] => [[c]]
      | line :: lines => (c :: line) :: lines

theorem flatten_cutLines (cs : List Char) : (cutLines cs).flatten = cs := by
  fun_induction cutLines cs <;> simp_all

def lines (text : String) : List Line := (cutLines text.toList).map String.ofList

def isEnded (line : Line) : Bool :=
  match line.toList.getLast? with
  | some c => c == '\n' || c == '\r'
  | none => false

inductive Kind
  | keep
  | remove
  | add
  deriving DecidableEq, Repr

/-- A run of lines of one kind, with the numbers of lines recorded before it on either side. -/
structure Edit where
  kind : Kind
  oldStart : Nat
  newStart : Nat
  lines : List Line
  deriving DecidableEq, Repr

abbrev Script := List Edit

def Edit.oldLines (e : Edit) : List Line := if e.kind = .add then [] else e.lines

def Edit.newLines (e : Edit) : List Line := if e.kind = .remove then [] else e.lines

def Script.oldSide (s : Script) : List Line := s.flatMap Edit.oldLines

def Script.newSide (s : Script) : List Line := s.flatMap Edit.newLines

def commonLength : List Line → List Line → Nat
  | x :: xs, y :: ys => if x = y then commonLength xs ys + 1 else 0
  | _, _ => 0

theorem commonLength_le_left (a b : List Line) : commonLength a b ≤ a.length := by
  fun_induction commonLength a b <;> simp_all

def commonEndLength (a b : List Line) : Nat := commonLength a.reverse b.reverse

def run (kind : Kind) (oldStart newStart : Nat) (ls : List Line) : Script :=
  if ls.isEmpty then [] else [⟨kind, oldStart, newStart, ls⟩]

def between (i j : Nat) (a b : List Line) : Script :=
  let p := commonLength a b
  let s := commonEndLength (a.drop p) (b.drop p)
  let a' := (a.drop p).take (a.length - p - s)
  let b' := (b.drop p).take (b.length - p - s)
  let middle :=
    if a'.isEmpty ∨ b'.isEmpty then run .remove (i + p) (j + p) a' ++ run .add (i + p) (j + p) b'
    else
      match midpoint a' b' with
      | some (x, y) =>
        if _h : x ≤ a'.length ∧ y ≤ b'.length ∧ 0 < x + y ∧ x + y < a'.length + b'.length then
          between (i + p) (j + p) (a'.take x) (b'.take y) ++
            between (i + p + x) (j + p + y) (a'.drop x) (b'.drop y)
        else run .remove (i + p) (j + p) a' ++ run .add (i + p + a'.length) (j + p) b'
      | none => run .remove (i + p) (j + p) a' ++ run .add (i + p + a'.length) (j + p) b'
  run .keep i j (a.take p) ++ middle ++
    run .keep (i + a.length - s) (j + b.length - s) (a.drop (a.length - s))
termination_by a.length + b.length
decreasing_by
  all_goals
    have ha : a'.length ≤ a.length := by simp only [a', List.length_take, List.length_drop]; omega
    have hb : b'.length ≤ b.length := by simp only [b', List.length_take, List.length_drop]; omega
  · show (a'.take x).length + (b'.take y).length < a.length + b.length
    simp only [List.length_take]
    omega
  · show (a'.drop x).length + (b'.drop y).length < a.length + b.length
    simp only [List.length_drop]
    omega

end Inlay.Diff
