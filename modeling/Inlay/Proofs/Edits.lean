import Inlay.Diff.Compact
import Mathlib.Data.List.Basic

namespace Inlay.Diff

variable {a b : List Line} {i j n : Nat}

theorem take_commonLength (a b : List Line) : a.take (commonLength a b) = b.take (commonLength a b) := by
  fun_induction commonLength a b with
  | case1 x xs ys ih => simp [ih]
  | case2 x xs y ys hne => rfl
  | case3 => simp

theorem commonLength_comm (a b : List Line) : commonLength a b = commonLength b a := by
  fun_induction commonLength a b with
  | case1 x xs ys ih => simp [commonLength, ih]
  | case2 x xs y ys hne => rw [commonLength, if_neg (Ne.symm hne)]
  | case3 a b h =>
      cases a with
      | nil => cases b <;> rfl
      | cons x xs =>
          cases b with
          | nil => rfl
          | cons y ys => exact absurd rfl (h x xs y ys rfl)

theorem commonLength_self (a : List Line) : commonLength a a = a.length := by
  induction a with
  | nil => rfl
  | cons x xs ih => simp [commonLength, ih]

theorem commonLength_le_right (a b : List Line) : commonLength a b ≤ b.length :=
  commonLength_comm a b ▸ commonLength_le_left b a

theorem commonEndLength_le_right (a b : List Line) : commonEndLength a b ≤ b.length := by
  simpa [commonEndLength] using commonLength_le_right a.reverse b.reverse

theorem drop_commonEndLength (a b : List Line) :
    a.drop (a.length - commonEndLength a b) = b.drop (b.length - commonEndLength a b) := by
  have h := congrArg List.reverse (take_commonLength a.reverse b.reverse)
  simpa [commonEndLength, List.take_reverse] using h

theorem slack_ne_zero {common : List Line → List Line → Nat} {q e : Edit} (h : slack common q e ≠ 0) :
    e.kind = .add ∧ slack common q e = common q.lines e.lines := by
  unfold slack at h ⊢
  split at h
  · next hadd => exact ⟨hadd, if_pos hadd⟩
  · exact absurd rfl h

namespace Script

variable {s t u : Script}

@[simp] theorem oldSide_append (s t : Script) : oldSide (s ++ t) = oldSide s ++ oldSide t := List.flatMap_append

@[simp] theorem newSide_append (s t : Script) : newSide (s ++ t) = newSide s ++ newSide t := List.flatMap_append

def kept (s : Script) : List Line := s.flatMap fun e => if e.kind = .keep then e.lines else []

@[simp] theorem kept_append (s t : Script) : kept (s ++ t) = kept s ++ kept t := List.flatMap_append

def AreFilled (s : Script) : Prop := ∀ e ∈ s, e.kind ≠ .keep → e.lines ≠ []

theorem areFilled_append : AreFilled (s ++ t) ↔ AreFilled s ∧ AreFilled t := List.forall_mem_append

/-- Every edit records how many lines stand before it on the sides where it has lines, if there are `i`
and `j` before the script. -/
def IsPlaced : Script → Nat → Nat → Prop
  | [], _, _ => True
  | e :: rest, i, j => (e.kind ≠ .add → e.oldStart = i) ∧ (e.kind ≠ .remove → e.newStart = j) ∧
      IsPlaced rest (i + e.oldLines.length) (j + e.newLines.length)

theorem isPlaced_append : IsPlaced (s ++ t) i j ↔
    IsPlaced s i j ∧ IsPlaced t (i + (oldSide s).length) (j + (newSide s).length) := by
  induction s generalizing i j with
  | nil => simp [IsPlaced, oldSide, newSide]
  | cons e s ih =>
      simp only [List.cons_append, IsPlaced, ih, oldSide, newSide, List.flatMap_cons, List.length_append, and_assoc,
        Nat.add_assoc]

/-- The second script has the sides and the kept lines of the first one. Its edits are placed, and filled, if
those of the first one are. -/
structure Refines (s t : Script) : Prop where
  oldSide : oldSide t = oldSide s
  newSide : newSide t = newSide s
  kept : kept t = kept s
  isPlaced : ∀ i j, IsPlaced s i j → IsPlaced t i j
  areFilled : AreFilled s → AreFilled t

namespace Refines

theorem refl (s : Script) : Refines s s := ⟨rfl, rfl, rfl, fun _ _ => id, id⟩

theorem trans (h : Refines s t) (h' : Refines t u) : Refines s u :=
  ⟨h'.oldSide.trans h.oldSide, h'.newSide.trans h.newSide, h'.kept.trans h.kept,
    fun i j hs => h'.isPlaced i j (h.isPlaced i j hs), fun hs => h'.areFilled (h.areFilled hs)⟩

theorem congr (before after : Script) (h : Refines s t) :
    Refines (before ++ (s ++ after)) (before ++ (t ++ after)) := by
  refine ⟨?_, ?_, ?_, fun i j hs => ?_, fun hs => ?_⟩
  · simp [h.oldSide]
  · simp [h.newSide]
  · simp [h.kept]
  · rw [isPlaced_append, isPlaced_append] at hs ⊢
    rw [h.oldSide, h.newSide]
    exact ⟨hs.1, h.isPlaced _ _ hs.2.1, hs.2.2⟩
  · rw [areFilled_append, areFilled_append] at hs ⊢
    exact ⟨hs.1, h.areFilled hs.2.1, hs.2.2⟩

variable {before after : Script} {q e : Edit} {o w o' w' n : Nat} {ls stay moved rest : List Line}

theorem drop (h : q.lines = []) : Refines [q] [] := by
  refine ⟨?_, ?_, ?_, fun i j _ => trivial, fun _ => List.forall_mem_nil _⟩
  · simp [Script.oldSide, Edit.oldLines, h]
  · simp [Script.newSide, Edit.newLines, h]
  · simp [Script.kept, h]

theorem merge (h : q.kind = e.kind) : Refines [q, e] [⟨q.kind, q.oldStart, q.newStart, q.lines ++ e.lines⟩] := by
  refine ⟨?_, ?_, ?_, fun i j ⟨ho, hw, _⟩ => ⟨ho, hw, trivial⟩, fun hs => ?_⟩
  · cases hk : e.kind <;> simp [Script.oldSide, Edit.oldLines, h, hk]
  · cases hk : e.kind <;> simp [Script.newSide, Edit.newLines, h, hk]
  · cases hk : e.kind <;> simp [Script.kept, h, hk]
  · simp_all [AreFilled]

theorem merge_keep (o w o' w' : Nat) (moved ls : List Line) : Refines [⟨.keep, o, w, moved⟩, ⟨.keep, o', w', ls⟩]
    [⟨.keep, o' - moved.length, w' - moved.length, moved ++ ls⟩] := by
  refine ⟨?_, ?_, ?_, fun i j ⟨ho, hw, ho', hw', _⟩ => ⟨fun _ => ?_, fun _ => ?_, trivial⟩,
    fun _ => by simp [AreFilled]⟩
  · simp [Script.oldSide, Edit.oldLines]
  · simp [Script.newSide, Edit.newLines]
  · simp [Script.kept]
  · have := ho' nofun
    simp only [Edit.oldLines] at this ⊢
    simp [this]
  · have := hw' nofun
    simp only [Edit.newLines] at this ⊢
    simp [this]

theorem swap (hq : q.kind ≠ .keep) (he : e.kind ≠ .keep) (h : q.kind ≠ e.kind) : Refines [q, e] [e, q] := by
  cases hqk : q.kind with
  | keep => exact absurd hqk hq
  | remove =>
      have hek : e.kind = .add := by
        cases hek : e.kind with
        | keep => exact absurd hek he
        | remove => exact absurd (hqk.trans hek.symm) h
        | add => rfl
      refine ⟨?_, ?_, ?_, fun i j hs => ?_, fun hs => ?_⟩
      · simp [Script.oldSide, Edit.oldLines, hqk, hek]
      · simp [Script.newSide, Edit.newLines, hqk, hek]
      · simp [Script.kept, hqk, hek]
      · simpa [IsPlaced, Edit.oldLines, Edit.newLines, hqk, hek, and_comm] using hs
      · exact (areFilled_append (s := [e]) (t := [q])).2 (areFilled_append (s := [q]) (t := [e]) |>.1 hs).symm
  | add =>
      have hek : e.kind = .remove := by
        cases hek : e.kind with
        | keep => exact absurd hek he
        | add => exact absurd (hqk.trans hek.symm) h
        | remove => rfl
      refine ⟨?_, ?_, ?_, fun i j hs => ?_, fun hs => ?_⟩
      · simp [Script.oldSide, Edit.oldLines, hqk, hek]
      · simp [Script.newSide, Edit.newLines, hqk, hek]
      · simp [Script.kept, hqk, hek]
      · simpa [IsPlaced, Edit.oldLines, Edit.newLines, hqk, hek, and_comm] using hs
      · exact (areFilled_append (s := [e]) (t := [q])).2 (areFilled_append (s := [q]) (t := [e]) |>.1 hs).symm

theorem slideUp (o w o' w' : Nat) (stay moved rest : List Line) : Refines
    [⟨.keep, o, w, stay ++ moved⟩, ⟨.add, o', w', rest ++ moved⟩]
    [⟨.keep, o, w, stay⟩, ⟨.add, o' - moved.length, w' - moved.length, moved ++ rest⟩,
      ⟨.keep, o + (stay ++ moved).length - moved.length, w' + (rest ++ moved).length - moved.length, moved⟩] := by
  refine ⟨?_, ?_, ?_, fun i j hs => ?_, fun hs => ?_⟩
  · simp [Script.oldSide, Edit.oldLines]
  · simp [Script.newSide, Edit.newLines]
  · simp [Script.kept]
  · simp only [IsPlaced, Edit.oldLines, Edit.newLines] at hs ⊢
    simp only [ne_eq, not_false_eq_true, forall_const, reduceCtorEq, not_true_eq_false, IsEmpty.forall_iff, if_false,
      if_true, List.length_nil, List.length_append, Nat.add_zero, true_and, and_true] at hs ⊢
    omega
  · simpa [AreFilled, -not_and, and_comm] using hs

theorem slideDown (o w o' w' : Nat) (stay moved rest : List Line) : Refines
    [⟨.add, o', w', moved ++ rest⟩, ⟨.keep, o, w, moved ++ stay⟩]
    [⟨.keep, o, w', moved⟩, ⟨.add, o' + moved.length, w' + moved.length, rest ++ moved⟩,
      ⟨.keep, o + moved.length, w + moved.length, stay⟩] := by
  refine ⟨?_, ?_, ?_, fun i j hs => ?_, fun hs => ?_⟩
  · simp [Script.oldSide, Edit.oldLines]
  · simp [Script.newSide, Edit.newLines]
  · simp [Script.kept]
  · simp only [IsPlaced, Edit.oldLines, Edit.newLines] at hs ⊢
    simp only [ne_eq, not_false_eq_true, forall_const, reduceCtorEq, not_true_eq_false, IsEmpty.forall_iff, if_false,
      if_true, List.length_nil, List.length_append, Nat.add_zero, true_and, and_true] at hs ⊢
    omega
  · simpa [AreFilled, -not_and, and_comm] using hs

theorem prepend (before : Script) (h : Refines s t) : Refines (before ++ s) (before ++ t) := by
  simpa using h.congr before []

theorem append (h : Refines s t) (after : Script) : Refines (s ++ after) (t ++ after) := h.congr [] after

/-- The lines by which an addition moves up stand behind it, in front of the kept ones if there are some. -/
theorem slideUp_of_slack (hq : q.kind = .keep) (hn : slack commonEndLength q e = n) (hne : n ≠ 0) (after : Script) :
    Refines (q :: e :: after)
      (⟨.keep, q.oldStart, q.newStart, q.lines.take (q.lines.length - n)⟩ ::
        ⟨e.kind, e.oldStart - n, e.newStart - n,
          q.lines.drop (q.lines.length - n) ++ e.lines.take (e.lines.length - n)⟩ ::
        match after with
        | ⟨.keep, o, w, ls⟩ :: rest => ⟨.keep, o - n, w - n, q.lines.drop (q.lines.length - n) ++ ls⟩ :: rest
        | _ => ⟨.keep, q.oldStart + q.lines.length - n, e.newStart + e.lines.length - n,
            q.lines.drop (q.lines.length - n)⟩ :: after) := by
  obtain ⟨he, hcommon⟩ := slack_ne_zero (hn ▸ hne)
  obtain ⟨_, o, w, ls⟩ := q
  obtain ⟨_, o', w', ls'⟩ := e
  cases hq
  cases he
  dsimp only at hcommon ⊢
  have hends := drop_commonEndLength ls ls'
  have hle := commonEndLength_le_left ls ls'
  rw [← hcommon, hn] at hends hle
  have hlength : (ls.drop (ls.length - n)).length = n := by
    rw [List.length_drop]
    omega
  have hslide := slideUp o w o' w' (ls.take (ls.length - n)) (ls.drop (ls.length - n)) (ls'.take (ls'.length - n))
  have hls' : ls'.take (ls'.length - n) ++ ls.drop (ls.length - n) = ls' := by
    rw [hends, List.take_append_drop]
  rw [hlength, List.take_append_drop, hls'] at hslide
  split
  · next o₁ w₁ ls₁ rest =>
      refine (hslide.append (⟨.keep, o₁, w₁, ls₁⟩ :: rest)).trans ?_
      have hmerge := merge_keep (o + ls.length - n) (w' + ls'.length - n) o₁ w₁ (ls.drop (ls.length - n)) ls₁
      rw [hlength] at hmerge
      exact (hmerge.append rest).prepend [_, _]
  · exact hslide.append after

theorem slideDown_of_slack (hq : q.kind = .keep) (hn : slack commonLength q e = n) (hne : n ≠ 0) (before : Script) :
    Refines (before.reverse ++ e :: [q])
      ((match before with
        | ⟨.keep, o, w, ls⟩ :: rest => ⟨.keep, o, w, ls ++ q.lines.take n⟩ :: rest
        | _ => ⟨.keep, q.oldStart, e.newStart, q.lines.take n⟩ :: before : Script).reverse ++
        [⟨e.kind, e.oldStart + n, e.newStart + n, e.lines.drop n ++ q.lines.take n⟩,
          ⟨.keep, q.oldStart + n, q.newStart + n, q.lines.drop n⟩]) := by
  obtain ⟨he, hcommon⟩ := slack_ne_zero (hn ▸ hne)
  obtain ⟨_, o, w, ls⟩ := q
  obtain ⟨_, o', w', ls'⟩ := e
  cases hq
  cases he
  dsimp only at hcommon ⊢
  have hstarts := take_commonLength ls ls'
  have hle := commonLength_le_left ls ls'
  rw [← hcommon, hn] at hstarts hle
  have hlength : (ls.take n).length = n := by
    rw [List.length_take]
    omega
  have hslide := slideDown o w o' w' (ls.drop n) (ls.take n) (ls'.drop n)
  have hls' : ls.take n ++ ls'.drop n = ls' := by
    rw [hstarts, List.take_append_drop]
  rw [hlength, List.take_append_drop, hls'] at hslide
  split
  · next o₁ w₁ ls₁ rest =>
      rw [List.reverse_cons, List.reverse_cons, List.append_assoc, List.append_assoc]
      refine .prepend rest.reverse ?_
      refine (hslide.prepend [⟨.keep, o₁, w₁, ls₁⟩]).trans ?_
      exact (merge (q := ⟨.keep, o₁, w₁, ls₁⟩) (e := ⟨.keep, o, w', ls.take n⟩) rfl).append _
  · rw [List.reverse_cons, List.append_assoc]
    exact hslide.prepend before.reverse

end Refines

variable {before after : Script} {e q : Edit}

/-- The script of an edit and of what stands before it, nearest first, and after it. -/
def assemble (r : Script × Edit × Script) : Script := r.1.reverse ++ r.2.1 :: r.2.2

theorem assemble_cons : assemble (q :: before, e, after) = before.reverse ++ (q :: e :: after) := by
  simp [assemble]

theorem refines_raise (before after : Script) (he : e.kind ≠ .keep) :
    Refines (assemble (before, e, after)) (assemble (raise before e after)) ∧
      (raise before e after).2.1.kind = e.kind := by
  -- Every round is one of the laws above, in front of what the induction gives.
  fun_induction raise before e after with
  | case1 e after => exact ⟨.refl _, rfl⟩
  | case2 e after q before hq n hn hempty ih =>
      refine ⟨.trans ?_ (ih he).1, (ih he).2⟩
      rw [assemble_cons]
      exact ((Refines.drop (List.isEmpty_iff.1 hempty)).append (e :: after)).prepend before.reverse
  | case3 e after q before hq n hn hempty => exact ⟨.refl _, rfl⟩
  | case4 e after q before hq n hn stay moved after' e' hempty ih =>
      refine ⟨.trans ?_ (ih he).1, (ih he).2⟩
      have hslide := Refines.slideUp_of_slack hq rfl hn after
      have hdrop : Refines [⟨.keep, q.oldStart, q.newStart, stay⟩] [] := .drop (List.isEmpty_iff.1 hempty)
      rw [assemble_cons]
      exact (hslide.trans (hdrop.append (e' :: after'))).prepend before.reverse
  | case5 e after q before hq n hn stay moved after' e' hempty ih =>
      refine ⟨.trans ?_ (ih he).1, (ih he).2⟩
      rw [assemble_cons, assemble_cons]
      exact (Refines.slideUp_of_slack hq rfl hn after).prepend before.reverse
  | case6 e after q before hq hsame ih =>
      obtain ⟨hrefines, hkind⟩ := ih hq
      refine ⟨.trans ?_ hrefines, hkind.trans hsame⟩
      rw [assemble_cons]
      exact ((Refines.merge hsame).append after).prepend before.reverse
  | case7 e after q before hq hother ih =>
      refine ⟨.trans ?_ (ih he).1, (ih he).2⟩
      rw [assemble_cons]
      exact ((Refines.swap hq he hother).append after).prepend before.reverse

theorem refines_lower (before after : Script) (he : e.kind ≠ .keep) :
    Refines (assemble (before, e, after)) (assemble (lower before e after)) ∧
      (lower before e after).2.1.kind = e.kind := by
  fun_induction lower before e after with
  | case1 before e => exact ⟨.refl _, rfl⟩
  | case2 before e q after hq n hn hempty ih =>
      refine ⟨.trans ?_ (ih he).1, (ih he).2⟩
      have hdrop := ((Refines.drop (List.isEmpty_iff.1 hempty)).append after).prepend (before.reverse ++ [e])
      simpa [assemble] using hdrop
  | case3 before e q after hq n hn hempty => exact ⟨.refl _, rfl⟩
  | case4 before e q after hq n hn moved stay before' e' hempty ih =>
      refine ⟨.trans ?_ (ih he).1, (ih he).2⟩
      have hslide := (Refines.slideDown_of_slack hq rfl hn before).append after
      have hdrop : Refines [⟨.keep, q.oldStart + n, q.newStart + n, stay⟩] [] := .drop (List.isEmpty_iff.1 hempty)
      have hrest := (hdrop.append after).prepend (before'.reverse ++ [e'])
      simp only [assemble, List.append_assoc, List.cons_append, List.nil_append] at hslide hrest ⊢
      exact hslide.trans hrest
  | case5 before e q after hq n hn moved stay before' e' hempty ih =>
      refine ⟨.trans ?_ (ih he).1, (ih he).2⟩
      have hslide := (Refines.slideDown_of_slack hq rfl hn before).append after
      simp only [assemble, List.append_assoc, List.cons_append, List.nil_append] at hslide ⊢
      exact hslide
  | case6 before e q after hq hsame ih =>
      refine ⟨.trans ?_ (ih he).1, (ih he).2⟩
      exact ((Refines.merge hsame.symm).append after).prepend before.reverse
  | case7 before e q after hq hother ih =>
      refine ⟨.trans ?_ (ih he).1, (ih he).2⟩
      rw [assemble_cons]
      exact ((Refines.swap he hq (Ne.symm hother)).append after).prepend before.reverse

theorem refines_sweep (kind : Kind) (hkind : kind ≠ .keep) (steps : Nat) (before after : Script) :
    Refines (before.reverse ++ after) (sweep kind steps before after) := by
  fun_induction sweep kind steps before after with
  | case1 before after => exact .refl _
  | case2 _ before _ =>
      rw [List.append_nil]
      exact .refl _
  | case3 steps before e after he before' e' after' hraise before'' e'' after'' hlower ih =>
      obtain ⟨hup, hkind'⟩ := refines_raise (e := e) before after (he ▸ hkind)
      rw [hraise] at hup hkind'
      obtain ⟨hdown, -⟩ := refines_lower (e := e') before' after' (by rwa [hkind', he])
      rw [hlower] at hdown
      refine (hup.trans hdown).trans ?_
      simpa [assemble] using ih
  | case4 steps before e after he ih => simpa using ih

theorem refines_compact (s : Script) : Refines s (compact s) :=
  (refines_sweep .remove nofun _ [] s).trans (refines_sweep .add nofun _ [] _)

theorem areFilled_run (kind : Kind) (o w : Nat) (ls : List Line) : AreFilled (run kind o w ls) := by
  cases ls with
  | nil => exact List.forall_mem_nil _
  | cons x xs => simp [AreFilled, run]

/-- The script leads from `a` to `b`, which have `i` and `j` lines before them, and its edits are placed and
filled. -/
structure Spans (s : Script) (i j : Nat) (a b : List Line) : Prop where
  oldSide : oldSide s = a
  newSide : newSide s = b
  isPlaced : IsPlaced s i j
  areFilled : AreFilled s

namespace Spans

variable {i j : Nat} {a b a' b' ls : List Line}

theorem append (h : Spans s i j a b) (h' : Spans t (i + a.length) (j + b.length) a' b') :
    Spans (s ++ t) i j (a ++ a') (b ++ b') := by
  refine ⟨?_, ?_, ?_, areFilled_append.2 ⟨h.areFilled, h'.areFilled⟩⟩
  · rw [oldSide_append, h.oldSide, h'.oldSide]
  · rw [newSide_append, h.newSide, h'.newSide]
  · rw [isPlaced_append, h.oldSide, h.newSide]
    exact ⟨h.isPlaced, h'.isPlaced⟩

theorem refine (h : Spans s i j a b) (hr : Refines s t) : Spans t i j a b :=
  ⟨hr.oldSide.trans h.oldSide, hr.newSide.trans h.newSide, hr.isPlaced i j h.isPlaced, hr.areFilled h.areFilled⟩

theorem run_keep (i j : Nat) (ls : List Line) : Spans (run .keep i j ls) i j ls ls := by
  cases ls with
  | nil => exact ⟨rfl, rfl, trivial, areFilled_run _ _ _ _⟩
  | cons x xs => exact ⟨by simp [run, Script.oldSide, Edit.oldLines], by simp [run, Script.newSide, Edit.newLines],
      ⟨fun _ => rfl, fun _ => rfl, trivial⟩, areFilled_run _ _ _ _⟩

theorem run_remove (i j w : Nat) (ls : List Line) : Spans (run .remove i w ls) i j ls [] := by
  cases ls with
  | nil => exact ⟨rfl, rfl, trivial, areFilled_run _ _ _ _⟩
  | cons x xs => exact ⟨by simp [run, Script.oldSide, Edit.oldLines], by simp [run, Script.newSide, Edit.newLines],
      ⟨fun _ => rfl, fun h => absurd rfl h, trivial⟩, areFilled_run _ _ _ _⟩

theorem run_add (i j o : Nat) (ls : List Line) : Spans (run .add o j ls) i j [] ls := by
  cases ls with
  | nil => exact ⟨rfl, rfl, trivial, areFilled_run _ _ _ _⟩
  | cons x xs => exact ⟨by simp [run, Script.oldSide, Edit.oldLines], by simp [run, Script.newSide, Edit.newLines],
      ⟨fun h => absurd rfl h, fun _ => rfl, trivial⟩, areFilled_run _ _ _ _⟩

theorem run_replace (i j o w : Nat) (a b : List Line) : Spans (run .remove i w a ++ run .add o j b) i j a b := by
  simpa using (run_remove i j w a).append (run_add (i + a.length) j o b)

theorem framed (start fin : List Line) (h : Spans s (i + start.length) (j + start.length) a b) :
    Spans (run .keep i j start ++ s ++ run .keep (i + (start ++ a).length) (j + (start ++ b).length) fin) i j
      (start ++ a ++ fin) (start ++ b ++ fin) :=
  ((run_keep i j start).append h).append (run_keep _ _ fin)

end Spans

theorem take_append_middle_append_drop {p n : Nat} {ls : List Line} (h : p + n ≤ ls.length) :
    ls.take p ++ (ls.drop p).take (ls.length - p - n) ++ ls.drop (ls.length - n) = ls := by
  have hend : ls.drop (ls.length - n) = (ls.drop p).drop (ls.length - p - n) := by
    rw [List.drop_drop]
    congr 1
    omega
  rw [hend, List.append_assoc, List.take_append_drop, List.take_append_drop]

theorem common_ends (a b : List Line) :
    let p := commonLength a b
    let n := commonEndLength (a.drop p) (b.drop p)
    a.take p ++ (a.drop p).take (a.length - p - n) ++ a.drop (a.length - n) = a ∧
      a.take p ++ (b.drop p).take (b.length - p - n) ++ a.drop (a.length - n) = b := by
  intro p n
  have hpa : p ≤ a.length := commonLength_le_left a b
  have hpb : p ≤ b.length := commonLength_le_right a b
  have hna : n ≤ a.length - p := List.length_drop ▸ commonEndLength_le_left (a.drop p) (b.drop p)
  have hnb : n ≤ b.length - p := List.length_drop ▸ commonEndLength_le_right (a.drop p) (b.drop p)
  have hstart : b.take p = a.take p := (take_commonLength a b).symm
  have hend : b.drop (b.length - n) = a.drop (a.length - n) := by
    have hends := drop_commonEndLength (a.drop p) (b.drop p)
    rw [List.length_drop, List.length_drop, List.drop_drop, List.drop_drop] at hends
    rw [← Nat.add_sub_cancel' hpa, ← Nat.add_sub_cancel' hpb, Nat.add_sub_assoc hna, Nat.add_sub_assoc hnb]
    exact hends.symm
  refine ⟨take_append_middle_append_drop (by omega), ?_⟩
  rw [← hstart, ← hend]
  exact take_append_middle_append_drop (by omega)

theorem spans_between (i j : Nat) (a b : List Line) : Spans (between i j a b) i j a b := by
  fun_induction between i j a b with
  | case1 i j a b p s a' b' middle ihStart ihEnd =>
      have hmiddle : Spans middle (i + p) (j + p) a' b' := by
        unfold middle
        split
        · exact .run_replace ..
        · split
          · next x y _ =>
              split
              · next hxy =>
                  have hrest : Spans (between (i + p + x) (j + p + y) (a'.drop x) (b'.drop y))
                      (i + p + (a'.take x).length) (j + p + (b'.take y).length) (a'.drop x) (b'.drop y) := by
                    rw [List.length_take_of_le hxy.1, List.length_take_of_le hxy.2.1]
                    exact ihEnd x y hxy
                  have happend := (ihStart x y hxy).append hrest
                  rwa [List.take_append_drop, List.take_append_drop] at happend
              · exact .run_replace ..
          · exact .run_replace ..
      obtain ⟨ha, hb⟩ : a.take p ++ a' ++ a.drop (a.length - s) = a ∧ a.take p ++ b' ++ a.drop (a.length - s) = b :=
        common_ends a b
      have hsa : s ≤ a.length - p := List.length_drop ▸ commonEndLength_le_left (a.drop p) (b.drop p)
      have hsb : s ≤ b.length - p := List.length_drop ▸ commonEndLength_le_right (a.drop p) (b.drop p)
      have hlength : (a.take p).length = p := List.length_take_of_le (commonLength_le_left a b)
      have hcounts := congrArg List.length ha
      have hcounts' := congrArg List.length hb
      simp only [List.length_append, List.length_drop] at hcounts hcounts'
      have hframed := Spans.framed (a.take p) (a.drop (a.length - s)) (by rwa [hlength])
      have hi : i + (a.take p ++ a').length = i + a.length - s := by
        rw [List.length_append]
        omega
      have hj : j + (a.take p ++ b').length = j + b.length - s := by
        rw [List.length_append]
        omega
      rwa [ha, hb, hi, hj] at hframed

theorem between_self (i j : Nat) (a : List Line) : between i j a a = run .keep i j a := by
  rw [between]
  simp [commonLength_self, commonEndLength, run]

theorem sweep_of_forall_ne {kind : Kind} (steps : Nat) (before : Script) {after : Script}
    (h : ∀ e ∈ after, e.kind ≠ kind) : sweep kind steps before after = before.reverse ++ after := by
  fun_induction sweep kind steps before after with
  | case1 => rfl
  | case2 => exact (List.append_nil _).symm
  | case3 steps before e after he => exact absurd he (h e List.mem_cons_self)
  | case4 steps before e after he ih => simpa using ih fun x hx => h x (List.mem_cons_of_mem e hx)

theorem compact_run_keep (i j : Nat) (a : List Line) : compact (run .keep i j a) = run .keep i j a := by
  have hkinds (kind : Kind) (hkind : kind ≠ .keep) : ∀ e ∈ run .keep i j a, e.kind ≠ kind := by
    intro e he
    unfold run at he
    split at he
    · exact absurd he List.not_mem_nil
    · rw [List.mem_singleton.1 he]
      exact hkind.symm
  have hremove : settle .remove (run .keep i j a) = run .keep i j a :=
    sweep_of_forall_ne _ [] (hkinds .remove nofun)
  rw [compact, hremove]
  exact sweep_of_forall_ne _ [] (hkinds .add nofun)

end Script

end Inlay.Diff
