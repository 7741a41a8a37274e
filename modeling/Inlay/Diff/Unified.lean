import Inlay.Diff.Hunk

namespace Inlay.Diff

def script (old new : String) : Script :=
  compact (between 0 0 (lines old) (lines new))

/-- A range of one line is its number; an empty range is numbered by the line before it. -/
def rangeText (start stop : Nat) : String :=
  let count := stop - start
  if count = 1 then toString (start + 1)
  else toString (if count = 0 then start else start + 1) ++ "," ++ toString count

def noNewline : String := "\n\\ No newline at end of file\n"

def lineText (sign : Char) (line : Line) : String :=
  String.singleton sign ++ line ++ if isEnded line then "" else noNewline

def Block.text : Block → String
  | .keep _ _ ls => String.join (ls.map (lineText ' '))
  | .change _ _ removed added =>
    String.join (removed.map (lineText '-')) ++ String.join (added.map (lineText '+'))

def Hunk.text (h : Hunk) : String :=
  let body := String.join (h.blocks.map Block.text)
  if body.isEmpty then ""
  else
    "@@ -" ++ rangeText h.oldStart h.oldEnd ++ " +" ++ rangeText h.newStart h.newEnd ++ " @@\n" ++ body

end Inlay.Diff

namespace Inlay

inductive Presentation
  | diff
  | full
  deriving DecidableEq, Repr, Inhabited

namespace Presentation

def ofNoDiff (noDiff : Bool) : Presentation := if noDiff then .full else .diff

end Presentation

/-- How a change is presented: the labels of its two sides and how many kept lines are shown around
it. -/
structure Presenter where
  oldLabel : String := "Original"
  newLabel : String := "Transpiled"
  contextRadius : Nat := 0
  deriving DecidableEq, Repr, Inhabited

namespace Presenter

def diff (p : Presenter) (old new : String) : String :=
  match Diff.hunks p.contextRadius (Diff.script old new) with
  | [] => ""
  | hs =>
    "--- " ++ p.oldLabel ++ "\n+++ " ++ p.newLabel ++ "\n" ++
      String.join (hs.map Diff.Hunk.text)

def render (p : Presenter) (old new : String) : Presentation → String
  | .diff => p.diff old new
  | .full => new

end Presenter

end Inlay
