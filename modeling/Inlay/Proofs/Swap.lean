import Inlay.Proofs.Shortest
import Inlay.Proofs.Shown
import Mathlib.Data.List.Perm.Basic

namespace Inlay

namespace Diff

variable {a b : String}

/-- The lines that a diff does not show as changed are a longest common part of the texts. -/
theorem isLongestCommon_marks (a b : String) :
    IsLongestCommon (Mark.linesOf .keep (marks a b)) (lines a) (lines b) := by
  rw [marks, Block.linesOf_keep_marks, (Block.reads_blocks _).kept, script, (Script.refines_compact _).kept]
  exact Script.isLongestCommon_between 0 0 (lines a) (lines b)

namespace Mark

theorem linesWhere_cons (p : Kind → Bool) (m : Mark) (s : List Mark) :
    linesWhere p (m :: s) = if p m.kind then m.line :: linesWhere p s else linesWhere p s := by
  cases hp : p m.kind <;> simp [linesWhere, hp]

theorem linesWhere_perm {p q r : Kind → Bool} (hor : ∀ k, p k = (q k || r k)) (hand : ∀ k, (q k && r k) = false)
    (s : List Mark) : (linesWhere p s).Perm (linesWhere q s ++ linesWhere r s) := by
  induction s with
  | nil => exact .nil
  | cons m s ih =>
      have hand := hand m.kind
      rw [linesWhere_cons, linesWhere_cons, linesWhere_cons, hor]
      cases hq : q m.kind with
      | true =>
          have hr : r m.kind = false := by rwa [hq, Bool.true_and] at hand
          simpa [hr] using ih
      | false =>
          cases hr : r m.kind with
          | true => simpa using (ih.cons m.line).trans List.perm_middle.symm
          | false => simpa using ih

theorem oldSide_perm (s : List Mark) : (oldSide s).Perm (linesOf .keep s ++ linesOf .remove s) :=
  linesWhere_perm (fun k => by cases k <;> rfl) (fun k => by cases k <;> rfl) s

theorem newSide_perm (s : List Mark) : (newSide s).Perm (linesOf .keep s ++ linesOf .add s) :=
  linesWhere_perm (fun k => by cases k <;> rfl) (fun k => by cases k <;> rfl) s

theorem linesOf_filter_isChange {k : Kind} (hk : k ≠ .keep) (s : List Mark) :
    linesOf k (s.filter isChange) = linesOf k s := by
  rw [linesOf, linesWhere, List.filter_filter, linesOf, linesWhere]
  refine congrArg _ (List.filter_congr fun m _ => ?_)
  cases hm : decide (m.kind = k) with
  | true => simp [isChange, of_decide_eq_true hm, hk]
  | false => rfl

end Mark

theorem shown_default (a b : String) :
    ({} : Presenter).shown (({} : Presenter).diff a b) = (marks a b).filter Mark.isChange := by
  rw [Presenter.shown_diff, Mark.within_zero]

theorem old_perm (a b : String) :
    (lines a).Perm (Mark.linesOf .keep (marks a b) ++ Mark.linesOf .remove (marks a b)) := by
  have h := Mark.oldSide_perm (marks a b)
  rwa [oldSide_marks] at h

theorem new_perm (a b : String) :
    (lines b).Perm (Mark.linesOf .keep (marks a b) ++ Mark.linesOf .add (marks a b)) := by
  have h := Mark.newSide_perm (marks a b)
  rwa [newSide_marks] at h

theorem length_removed_eq (a b : String) :
    (Mark.linesOf .remove (marks a b)).length = (Mark.linesOf .add (marks b a)).length := by
  have hkept := (isLongestCommon_marks a b).length_eq (isLongestCommon_marks b a).symm
  have hold := (old_perm a b).length_eq
  have hnew := (new_perm b a).length_eq
  rw [List.length_append] at hold hnew
  omega

theorem removed_perm (h : (Mark.linesOf .keep (marks a b)).Perm (Mark.linesOf .keep (marks b a))) :
    (Mark.linesOf .remove (marks a b)).Perm (Mark.linesOf .add (marks b a)) := by
  have hboth := (old_perm a b).symm.trans ((new_perm b a).trans (h.symm.append_right _))
  exact (List.perm_append_left_iff _).1 hboth

end Diff

open Diff

/-- The diffs of two texts in either direction remove as many lines as the other one adds. Where all longest common
parts of the texts have the same lines, what the one removes is what the other adds. -/
theorem swap_swaps_changes (a b : String) :
    let p : Presenter := {}
    let forth := p.shown (p.diff a b)
    let back := p.shown (p.diff b a)
    ((Mark.linesOf .remove forth).length = (Mark.linesOf .add back).length ∧
      (Mark.linesOf .add forth).length = (Mark.linesOf .remove back).length) ∧
    ((∀ s t, IsLongestCommon s (lines a) (lines b) → IsLongestCommon t (lines a) (lines b) → s.Perm t) →
      (Mark.linesOf .remove forth).Perm (Mark.linesOf .add back) ∧
        (Mark.linesOf .add forth).Perm (Mark.linesOf .remove back)) := by
  intro p forth back
  have hforth (k : Kind) (hk : k ≠ .keep) : Mark.linesOf k forth = Mark.linesOf k (marks a b) := by
    rw [← Mark.linesOf_filter_isChange hk (marks a b), ← shown_default]
  have hback (k : Kind) (hk : k ≠ .keep) : Mark.linesOf k back = Mark.linesOf k (marks b a) := by
    rw [← Mark.linesOf_filter_isChange hk (marks b a), ← shown_default]
  rw [hforth .remove nofun, hforth .add nofun, hback .remove nofun, hback .add nofun]
  refine ⟨⟨length_removed_eq a b, (length_removed_eq b a).symm⟩, fun hunique => ?_⟩
  have hkept := hunique _ _ (isLongestCommon_marks a b) (isLongestCommon_marks b a).symm
  exact ⟨removed_perm hkept, (removed_perm hkept.symm).symm⟩

theorem inserted_line_swapped :
    let p : Presenter := {}
    (∀ s t, IsLongestCommon s (lines "a\n") (lines "b\na\n") → IsLongestCommon t (lines "a\n") (lines "b\na\n") →
      s.Perm t) ∧
    (Mark.linesOf .add (p.shown (p.diff "a\n" "b\na\n"))).Perm
      (Mark.linesOf .remove (p.shown (p.diff "b\na\n" "a\n"))) := by
  have hone (s : List Line) (hs : IsLongestCommon s (lines "a\n") (lines "b\na\n")) : s = lines "a\n" :=
    hs.left.eq_of_length_le (hs.longest (lines "a\n") (.refl _) (by decide))
  have hunique (s t : List Line) (hs : IsLongestCommon s (lines "a\n") (lines "b\na\n"))
      (ht : IsLongestCommon t (lines "a\n") (lines "b\na\n")) : s.Perm t := by
    rw [hone s hs, hone t ht]
  exact ⟨hunique, ((swap_swaps_changes "a\n" "b\na\n").2 hunique).2⟩

/-- Two lines that change places: each direction keeps the line that it meets first. -/
theorem exchanged_lines_differ :
    let p : Presenter := {}
    ¬ (Mark.linesOf .remove (p.shown (p.diff "a\nb\n" "b\na\n"))).Perm
      (Mark.linesOf .add (p.shown (p.diff "b\na\n" "a\nb\n"))) := by
  decide +kernel

end Inlay
