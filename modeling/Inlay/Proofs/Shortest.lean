import Inlay.Proofs.Edits
import Inlay.Proofs.Frontier

namespace Inlay.Diff

variable {a b : List Line} {x : Line}

theorem head?_drop_commonLength (h : (a.drop (commonLength a b)).head? = some x) :
    (b.drop (commonLength a b)).head? ≠ some x := by
  fun_induction commonLength a b with
  | case1 x' xs ys ih => exact ih h
  | case2 x' xs y' ys hne =>
      rintro ⟨⟩
      exact hne (Option.some.inj h)
  | case3 a b hnone =>
      intro h'
      cases a with
      | nil => simp at h
      | cons x' xs =>
          cases b with
          | nil => simp at h'
          | cons y' ys => exact hnone x' xs y' ys rfl rfl

theorem head?_take_ne {n m : Nat} (hne : (a.drop (commonLength a b)).take n ≠ []) :
    ((a.drop (commonLength a b)).take n).head? ≠ ((b.drop (commonLength a b)).take m).head? := by
  have hhead {l : List Line} {x : Line} {n : Nat} (h : (l.take n).head? = some x) : l.head? = some x := by
    rw [List.head?_take] at h
    split at h
    · exact absurd h nofun
    · exact h
  intro heq
  obtain ⟨x, hx⟩ := Option.ne_none_iff_exists'.1 (mt List.head?_eq_none_iff.1 hne)
  exact head?_drop_commonLength (hhead hx) (hhead (heq ▸ hx))

theorem getLast?_take_ne (hne : a.take (a.length - commonEndLength a b) ≠ []) :
    (a.take (a.length - commonEndLength a b)).getLast? ≠ (b.take (b.length - commonEndLength a b)).getLast? := by
  rw [← List.head?_reverse, ← List.head?_reverse, ← List.drop_reverse, ← List.drop_reverse]
  rw [ne_eq, ← List.reverse_eq_nil_iff, ← List.drop_reverse] at hne
  intro heq
  obtain ⟨x, hx⟩ := Option.ne_none_iff_exists'.1 (mt List.head?_eq_none_iff.1 hne)
  exact head?_drop_commonLength hx (heq ▸ hx)

namespace Script

theorem kept_run (kind : Kind) (o w : Nat) (ls : List Line) :
    kept (run kind o w ls) = if kind = .keep then ls else [] := by
  cases ls with
  | nil => simp [run, kept]
  | cons x xs => simp [run, kept]

theorem isLongestCommon_between (i j : Nat) (a b : List Line) : IsLongestCommon (kept (between i j a b)) a b := by
  fun_induction between i j a b with
  | case1 i j a b p s a' b' middle ihStart ihEnd =>
      have hmiddle : IsLongestCommon (kept middle) a' b' := by
        unfold middle
        split
        · next hempty =>
            have hkept : kept (run .remove (i + p) (j + p) a' ++ run .add (i + p) (j + p) b') = [] := by simp [kept_run]
            rw [hkept]
            rcases hempty with hempty | hempty
            · rw [List.isEmpty_iff.1 hempty]
              exact .nil_left b'
            · rw [List.isEmpty_iff.1 hempty]
              exact (IsLongestCommon.nil_left a').symm
        · next hnonempty =>
            rw [not_or, List.isEmpty_iff, List.isEmpty_iff] at hnonempty
            have hlasts := getLast?_take_ne (a := a.drop p) (b := b.drop p)
            rw [List.length_drop, List.length_drop] at hlasts
            obtain ⟨x, y, hmidpoint, hcut⟩ :=
              midpoint_isCut hnonempty.1 hnonempty.2 (head?_take_ne hnonempty.1) (hlasts hnonempty.1)
            simp only [hmidpoint]
            have hxy : x ≤ a'.length ∧ y ≤ b'.length ∧ 0 < x + y ∧ x + y < a'.length + b'.length :=
              ⟨hcut.le_left, hcut.le_right, hcut.pos, hcut.lt⟩
            rw [dif_pos hxy, kept_append]
            exact hcut.append _ _ (ihStart x y hxy) (ihEnd x y hxy)
      obtain ⟨ha, hb⟩ : a.take p ++ a' ++ a.drop (a.length - s) = a ∧ a.take p ++ b' ++ a.drop (a.length - s) = b :=
        common_ends a b
      have hframed := (hmiddle.prepend (a.take p)).append (a.drop (a.length - s))
      rw [ha, hb] at hframed
      simpa [kept_run] using hframed

end Script

end Inlay.Diff
