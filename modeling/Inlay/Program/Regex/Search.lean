import Inlay.Program.Regex.Machine
import Inlay.Program.Regex.Parser

namespace Inlay.Program.Regex

abbrev Places := Array Bool

namespace Places

def contains (s : Places) (k : Nat) : Bool := s[k]?.getD false

def add (s : Places) (k : Nat) : Places := s.set! k true

def isEmpty (s : Places) : Bool := !s.any id

def members (s : Places) : List Nat := (List.range s.size).filter s.contains

end Places

namespace Machine

def nowhere (m : Machine) : Places := Array.replicate m.steps.size false

def last (m : Machine) : Nat := m.steps.size - 1

def spread (m : Machine) (t : Subject) (i : Nat) : (fuel : Nat) → Nat → Places → Places
  | 0, _, s => s
  | fuel + 1, k, s =>
    if s.contains k then s
    else
      let new := s.add k
      match m.steps[k]? with
      | some (.goto n) => spread m t i fuel n new
      | some (.split a b) => spread m t i fuel b (spread m t i fuel a new)
      | some (.openGroup _) | some (.closeGroup _ _) => spread m t i fuel (k + 1) new
      | some (.assertion a) => if t.holds i a then spread m t i fuel (k + 1) new else s
      | _ => new

def takes (m : Machine) (c : Option Char) (k : Nat) : Bool :=
  match m.steps[k]?, c with
  | some (.one set), some c => set.contains c
  | _, _ => false

def follow (m : Machine) (t : Subject) (i : Nat) (s : Places) : Places :=
  s.members.foldl (fun new k =>
    if m.takes t.chars[i]? k then m.spread t (i + 1) m.steps.size (k + 1) new else new) m.nowhere

def course (m : Machine) (t : Subject) : (count : Nat) → (i : Nat) → Places → List Places
  | 0, _, _ => []
  | count + 1, i, s => if s.isEmpty then [] else s :: course m t count (i + 1) (m.follow t i s)

def leading (m : Machine) (reached : Places) : (fuel : Nat) → Places → Places
  | 0, s => s
  | fuel + 1, s =>
    let leads (k : Nat) : Bool :=
      match m.steps[k]? with
      | some (.goto n) => s.contains n
      | some (.split a b) => s.contains a || s.contains b
      | some (.openGroup _) | some (.closeGroup _ _) | some (.assertion _) => s.contains (k + 1)
      | _ => false
    let new := reached.members.reverse.filter fun k => !s.contains k && leads k
    if new.isEmpty then s else leading m reached fuel (new.foldl .add s)

def useful (m : Machine) (t : Subject) : (i : Nat) → List Places → List Places
  | _, [] => []
  | i, reached :: more =>
    let later := useful m t (i + 1) more
    let ends := match later with
      | [] => if reached.contains m.last then m.nowhere.add m.last else m.nowhere
      | next :: _ =>
        reached.members.foldl (fun s k =>
          if m.takes t.chars[i]? k && next.contains (k + 1) then s.add k else s) m.nowhere
    m.leading reached m.steps.size ends :: later

end Machine

structure Span where
  start : Nat
  stop : Nat
  deriving DecidableEq, Repr

/-- The groups so far: `opened` where each one was opened last, `spans` as they count, and `kept` as
they were when a group was last closed after some text. -/
structure Groups where
  opened : Array (Option Nat)
  spans : Array (Option Span)
  kept : Array (Option Span)
  deriving DecidableEq, Repr

namespace Groups

def none (count : Nat) : Groups :=
  ⟨.replicate (count + 1) .none, .replicate (count + 1) .none, .replicate (count + 1) .none⟩

def span? (g : Groups) (n : Nat) : Option Span := (g.spans[n]?).join

def openAt (g : Groups) (n i : Nat) : Groups :=
  { g with opened := g.opened.set! n (some i), spans := g.spans.set! n .none }

def closeAt (g : Groups) (n : Nat) (inLoop : Bool) (i : Nat) : Groups :=
  match (g.opened[n]?).join with
  | .none => g
  | some start =>
    let spans := g.spans.set! n (some ⟨start, i⟩)
    if start < i then { g with spans, kept := spans }
    else if inLoop ∧ ((g.kept[n]?).join).isSome then { g with spans := g.kept }
    else { g with spans }

end Groups

/-- Goes through a text from a step on, the preferred ways first, to the end of the match. `useful`
tells of each step whether it leads there; `passed` holds the steps since the last character, so
that no loop is gone through for nothing. -/
def walk (m : Machine) (t : Subject) (stop : Nat) (useful : Nat → Nat → Bool) :
    (fuel : Nat) → (k i : Nat) → (passed : List Nat) → Groups → Option Groups
  | 0, _, _, _, _ => none
  | fuel + 1, k, i, passed, g =>
    let walk := walk m t stop useful fuel
    if !useful i k then none
    else
      match m.steps[k]? with
      | none => none
      | some .done => if i = stop then some g else none
      | some (.one _) => if m.takes t.chars[i]? k then walk (k + 1) (i + 1) [] g else none
      | some (.goto n) => walk n i passed g
      | some (.assertion a) => if t.holds i a then walk (k + 1) i (k :: passed) g else none
      | some (.openGroup n) => walk (k + 1) i (k :: passed) (g.openAt n i)
      | some (.closeGroup n inLoop) => walk (k + 1) i (k :: passed) (g.closeAt n inLoop i)
      | some (.split a b) =>
        if passed.contains a ∧ useful i b then walk b i (k :: passed) g
        else (walk a i (k :: passed) g).or (walk b i (k :: passed) g)
      | some (.same n) =>
        match g.span? n with
        | none => none
        | some s =>
          let size := s.stop - s.start
          if (t.chars.extract s.start s.stop) = t.chars.extract i (i + size) then
            walk (k + 1) (i + size) (if size = 0 then k :: passed else []) g
          else none

def matchAt (m : Machine) (t : Subject) (start : Nat) : Option (Array (Option Span)) :=
  let fuel (stop : Nat) : Nat := (stop - start + 2) * (m.steps.size + 2)
  let finish (stop : Nat) (g : Groups) : Array (Option Span) := g.spans.set! 0 (some ⟨start, stop⟩)
  let none := Groups.none m.groups
  if m.remembers then
    ((List.range (t.chars.size - start + 1)).map (start + ·)).reverse.findSome? fun stop =>
      (walk m t stop (fun _ _ => true) (fuel stop) 0 start [] none).map (finish stop)
  else
    let course := m.course t (t.chars.size - start + 1) start (m.spread t start m.steps.size 0 m.nowhere)
    match course.reverse.dropWhile (!·.contains m.last) with
    | [] => .none
    | reached =>
      let stop := start + reached.length - 1
      let useful := (m.useful t start reached.reverse).toArray
      let isUseful (i k : Nat) : Bool := useful[i - start]?.any (·.contains k)
      (walk m t stop isUseful (fuel stop) 0 start [] none).map (finish stop)

def searchFrom (m : Machine) (t : Subject) : (count : Nat) → (start : Nat) → Option (Array (Option Span))
  | 0, _ => none
  | count + 1, start => (matchAt m t start).or (searchFrom m t count (start + 1))

def search (m : Machine) (t : Subject) (start : Nat) : Option (Array (Option Span)) :=
  searchFrom m t (t.chars.size + 1 - start) start

end Inlay.Program.Regex
