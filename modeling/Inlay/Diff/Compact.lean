import Inlay.Diff.Script

namespace Inlay.Diff

def slack (common : List Line → List Line → Nat) (kept t : Edit) : Nat :=
  if t.kind = .add then common kept.lines t.lines else 0

def weight : Script → Nat
  | [] => 0
  | e :: rest => e.lines.length + 1 + weight rest

theorem commonEndLength_le_left (a b : List Line) : commonEndLength a b ≤ a.length := by
  simpa [commonEndLength] using commonLength_le_left a.reverse b.reverse

theorem slack_le {common : List Line → List Line → Nat} (h : ∀ a b, common a b ≤ a.length)
    (kept t : Edit) : slack common kept t ≤ kept.lines.length := by
  unfold slack
  split
  · exact h _ _
  · exact Nat.zero_le _

def raise (before : Script) (t : Edit) (after : Script) : Script × Edit × Script :=
  match before with
  | [] => ([], t, after)
  | q :: before =>
    if q.kind = .keep then
      let n := slack commonEndLength q t
      if _hn : n = 0 then if q.lines.isEmpty then raise before t after else (q :: before, t, after)
      else
        let stay := q.lines.take (q.lines.length - n)
        let moved := q.lines.drop (q.lines.length - n)
        let after :=
          match after with
          | ⟨.keep, o, w, ls⟩ :: rest => ⟨.keep, o - n, w - n, moved ++ ls⟩ :: rest
          | _ => ⟨.keep, q.oldStart + q.lines.length - n, t.newStart + t.lines.length - n, moved⟩ :: after
        let t := ⟨t.kind, t.oldStart - n, t.newStart - n, moved ++ t.lines.take (t.lines.length - n)⟩
        if stay.isEmpty then raise before t after
        else raise (⟨.keep, q.oldStart, q.newStart, stay⟩ :: before) t after
    else if q.kind = t.kind then raise before ⟨q.kind, q.oldStart, q.newStart, q.lines ++ t.lines⟩ after
    else raise before t (q :: after)
termination_by weight before
decreasing_by
  all_goals simp only [weight]
  all_goals try omega
  have hle : n ≤ q.lines.length := slack_le commonEndLength_le_left q _
  simp only [n] at _hn hle
  rw [List.length_take]
  omega

def lower (before : Script) (t : Edit) (after : Script) : Script × Edit × Script :=
  match after with
  | [] => (before, t, [])
  | q :: after =>
    if q.kind = .keep then
      let n := slack commonLength q t
      if _hn : n = 0 then if q.lines.isEmpty then lower before t after else (before, t, q :: after)
      else
        let moved := q.lines.take n
        let stay := q.lines.drop n
        let before :=
          match before with
          | ⟨.keep, o, w, ls⟩ :: rest => ⟨.keep, o, w, ls ++ moved⟩ :: rest
          | _ => ⟨.keep, q.oldStart, t.newStart, moved⟩ :: before
        let t := ⟨t.kind, t.oldStart + n, t.newStart + n, t.lines.drop n ++ moved⟩
        if stay.isEmpty then lower before t after
        else lower before t (⟨.keep, q.oldStart + n, q.newStart + n, stay⟩ :: after)
    else if q.kind = t.kind then lower before ⟨t.kind, t.oldStart, t.newStart, t.lines ++ q.lines⟩ after
    else lower (q :: before) t after
termination_by weight after
decreasing_by
  all_goals simp only [weight]
  all_goals try omega
  have hle : n ≤ q.lines.length := slack_le commonLength_le_left q _
  simp only [n] at _hn hle
  rw [List.length_drop]
  omega

/-- Settles the runs of one kind from the top to the bottom, in at most `steps` steps. -/
def sweep (kind : Kind) : (steps : Nat) → (before after : Script) → Script
  | 0, before, after => before.reverse ++ after
  | _, before, [] => before.reverse
  | steps + 1, before, t :: after =>
    if t.kind = kind then
      let (before, t, after) := raise before t after
      let (before, t, after) := lower before t after
      sweep kind steps (t :: before) after
    else sweep kind steps (t :: before) after

def settle (kind : Kind) (s : Script) : Script := sweep kind ((weight s + 1) * (weight s + 1)) [] s

def compact (s : Script) : Script := settle .add (settle .remove s)

end Inlay.Diff
