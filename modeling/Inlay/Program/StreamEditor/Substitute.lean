import Inlay.Program.StreamEditor.Script

namespace Inlay.Program.StreamEditor

namespace Casing

def apply (c : Casing) (o : Octets) : Octets :=
  match c with
  | .plain => o
  | .upper => o.map Char.toUpper
  | .lower => o.map Char.toLower

end Casing

def cased (c : Casing) (first : Option Casing) : Octets → Octets
  | [] => []
  | a :: rest => (first.getD c).apply [a] ++ c.apply rest

def insert (group : Nat → Octets) (c : Casing) (first : Option Casing) : List Insertion → Octets
  | [] => []
  | .casing c :: rest => insert group c none rest
  | .firstCasing c' :: rest => insert group c (some c') rest
  | .text o :: rest => cased c first o ++ insert group c (if o.isEmpty then first else none) rest
  | .group n :: rest =>
    cased c first (group n) ++ insert group c (if (group n).isEmpty then first else none) rest

namespace Substitution

/-- What becomes of the text from `start` on, and whether anything has been replaced. `found` tells
how many matches there have been, and `stop` where the last one ended, if it was not empty. An empty
match does not count right after another one. -/
def applyFrom (s : Substitution) (search : Search) (text : Octets) (t : Regex.Subject) :
    (fuel : Nat) → (start found : Nat) → (stop : Option Nat) → Octets × Bool
  | 0, start, _, _ => (text.drop start, false)
  | fuel + 1, start, found, stop =>
    match (search.find t start).bind fun spans => (spans[0]?).join.map fun whole => (whole, spans) with
    | none => (text.drop start, false)
    | some (whole, spans) =>
      let slice (a b : Nat) : Octets := (text.drop a).take (b - a)
      let before := slice start whole.start
      let isEmpty : Bool := whole.start = whole.stop
      let resume := if isEmpty then whole.stop + 1 else whole.stop
      let passed := slice whole.stop resume
      let further (found : Nat) : Octets × Bool :=
        if text.length < resume then ([], false)
        else applyFrom s search text t fuel resume found (if isEmpty then none else some whole.stop)
      if isEmpty ∧ stop = some whole.start then
        let (more, replaced) := further found
        (before ++ passed ++ more, replaced)
      else if found + 1 < s.occurrence then
        let (more, replaced) := further (found + 1)
        (before ++ slice whole.start whole.stop ++ passed ++ more, replaced)
      else
        let group (n : Nat) : Octets :=
          match (spans[n]?).join with
          | some g => slice g.start g.stop
          | none => []
        let new := before ++ insert group .plain none s.replacement
        if s.everywhere then (new ++ passed ++ (further (found + 1)).1, true)
        else (new ++ text.drop whole.stop, true)

def apply (s : Substitution) (search : Search) (text : Octets) : Option Octets :=
  let (new, replaced) := s.applyFrom search text (search.subject text) (text.length + 2) 0 0 none
  if replaced then some new else none

end Substitution

end Inlay.Program.StreamEditor
