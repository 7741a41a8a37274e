import Inlay.Diff.Compact

namespace Inlay.Diff

inductive Block
  | keep (oldStart newStart : Nat) (lines : List Line)
  | change (oldStart newStart : Nat) (removed added : List Line)
  deriving DecidableEq, Repr

namespace Block

def oldStart : Block → Nat
  | .keep o .. | .change o .. => o

def newStart : Block → Nat
  | .keep _ w _ | .change _ w .. => w

def oldEnd : Block → Nat
  | .keep o _ ls | .change o _ ls _ => o + ls.length

def newEnd : Block → Nat
  | .keep _ w ls | .change _ w _ ls => w + ls.length

def lastLines (n : Nat) : Block → Block
  | .keep o w ls => .keep (o + (ls.length - n)) (w + (ls.length - n)) (ls.drop (ls.length - n))
  | b => b

def firstLines (n : Nat) : Block → Block
  | .keep o w ls => .keep o w (ls.take n)
  | b => b

/-- One change out of runs of removals and additions in any order. It starts where its first
removal and its first addition start. -/
def ofEdits (es : List Edit) : Block :=
  let removals := es.filter (·.kind = .remove)
  let additions := es.filter (·.kind = .add)
  let removed := removals.flatMap (·.lines)
  let added := additions.flatMap (·.lines)
  match removals, additions with
  | r :: _, a :: _ => .change r.oldStart a.newStart removed added
  | e :: _, [] | [], e :: _ => .change e.oldStart e.newStart removed added
  | [], [] => .change 0 0 [] []

end Block

/-- Neighbouring kept runs become one block, everything between kept runs one change. -/
def blocks (s : Script) : List Block :=
  match s with
  | [] => []
  | e :: es =>
    if e.kind = .keep then
      let more := es.takeWhile (·.kind = .keep)
      .keep e.oldStart e.newStart (e.lines ++ more.flatMap (·.lines)) :: blocks (es.dropWhile (·.kind = .keep))
    else
      let more := es.takeWhile (·.kind ≠ .keep)
      Block.ofEdits (e :: more) :: blocks (es.dropWhile (·.kind ≠ .keep))
termination_by s.length
decreasing_by
  · have := (List.dropWhile_sublist (l := es) (fun e => decide (e.kind = .keep))).length_le
    simp; omega
  · have := (List.dropWhile_sublist (l := es) (fun e => decide (e.kind ≠ .keep))).length_le
    simp at this ⊢; omega

def onHead (f : Block → Block) : List Block → List Block
  | [] => []
  | b :: bs => f b :: bs

def onLast (f : Block → Block) (bs : List Block) : List Block := (onHead f bs.reverse).reverse

def trimEnds (radius : Nat) (bs : List Block) : List Block :=
  onLast (Block.firstLines radius) (onHead (Block.lastLines radius) bs)

/-- Cuts at every kept block that is too long to stand between two changes. `current` holds the
blocks since the last cut. -/
def cut (radius : Nat) (current : List Block) : List Block → List (List Block)
  | [] =>
    match current with
    | [] | [.keep ..] => []
    | _ => [current]
  | b :: bs =>
    match b with
    | .keep _ _ ls =>
      if 2 * radius < ls.length then
        (current ++ [b.firstLines radius]) :: cut radius [b.lastLines radius] bs
      else cut radius (current ++ [b]) bs
    | .change .. => cut radius (current ++ [b]) bs

/-- A hunk's ranges, as numbers of lines before and up to its end on either side, and its blocks. -/
structure Hunk where
  oldStart : Nat
  oldEnd : Nat
  newStart : Nat
  newEnd : Nat
  blocks : List Block
  deriving DecidableEq, Repr

def Hunk.ofBlocks? (bs : List Block) : Option Hunk :=
  match bs.head?, bs.getLast? with
  | some first, some last =>
    some ⟨first.oldStart, last.oldEnd, first.newStart, last.newEnd, bs⟩
  | _, _ => none

def hunks (radius : Nat) (s : Script) : List Hunk :=
  (cut radius [] (trimEnds radius (blocks s))).filterMap Hunk.ofBlocks?

end Inlay.Diff
