import Inlay.Diff.Midpoint
import Inlay.Proofs.Distance

namespace Inlay.Diff

variable {α : Type} {a b s : List α} {d e i x y : Nat}

/-- On the diagonal `d - 2 * i`, `d` steps reach the point after `x` elements, and none behind it. -/
structure IsFurthest (a b : List α) (d i x : Nat) : Prop where
  reached : ∃ y, x + 2 * i = y + d ∧ Reaches a b d x y
  furthest : ∀ x' y', x' + 2 * i = y' + d → Reaches a b d x' y' → x' ≤ x

structure Frontier (a b : List α) (d : Nat) (front : Array Nat) : Prop where
  size : front.size = d
  furthest : ∀ i x, front[i]? = some x → IsFurthest a b (d - 1) i x

theorem Frontier.empty (a b : List α) : Frontier a b 0 #[] := ⟨rfl, fun i x h => by simp at h⟩

theorem Frontier.getD {front : Array Nat} (h : Frontier a b (d + 1) front) (hi : i ≤ d) :
    IsFurthest a b d i (front.getD i 0) := by
  have hsize : i < front.size := by
    rw [h.size]
    omega
  refine h.furthest i _ ?_
  rw [Array.getElem?_eq_getElem hsize, Array.getD_eq_getD_getElem?, Array.getElem?_eq_getElem hsize, Option.getD_some]

/-- A reach whose run of agreements ends at the furthest point on its diagonal. -/
structure IsEdge (a b : List α) (d i : Nat) (r : Reach) : Prop where
  diagonal : r.x + 2 * i = r.y + d
  reached : Reaches a b d r.x r.y
  agree : Reaches.Agree a b r.x r.y r.run
  furthest : ∀ x' y', x' + 2 * i = y' + d → Reaches a b d x' y' → x' ≤ r.x + r.run

theorem IsEdge.reached_end {r : Reach} (h : IsEdge a b d i r) : Reaches a b d (r.x + r.run) (r.y + r.run) :=
  h.reached.forth h.agree

theorem IsEdge.isFurthest {r : Reach} (h : IsEdge a b d i r) : IsFurthest a b d i (r.x + r.run) := by
  have := h.diagonal
  exact ⟨⟨r.y + r.run, by omega, h.reached_end⟩, h.furthest⟩

theorem onDiagonal_iff {front : Array Nat} (hsize : front.size = e + 1) {k : Int} (hk : k % 2 = e % 2) :
    onDiagonal front e k = some x ↔ ∃ j : Nat, k = e - 2 * j ∧ front[j]? = some x := by
  have hbound {j : Nat} (hj : front[j]? = some x) : j ≤ e := by
    obtain ⟨hlt, -⟩ := Array.getElem?_eq_some_iff.1 hj
    omega
  rw [onDiagonal]
  split
  · next hinside =>
      constructor
      · exact fun h => ⟨_, by omega, h⟩
      · rintro ⟨j, rfl, hj⟩
        have hindex : ((e - (e - 2 * j : Int)) / 2).toNat = j := by omega
        rwa [hindex]
  · next houtside =>
      refine ⟨nofun, ?_⟩
      rintro ⟨j, rfl, hj⟩
      have := hbound hj
      omega

variable [BEq α] [LawfulBEq α]

theorem agree_agreement (a b : List α) (x y : Nat) :
    Reaches.Agree a b x y (agreement a.toArray b.toArray x y) := by
  fun_induction agreement a.toArray b.toArray x y with
  | case1 x y hx hy heq ih =>
      intro j hj
      cases j with
      | zero =>
          have hab : a[x] = b[y] := LawfulBEq.eq_of_beq heq
          exact ⟨a[x], List.getElem?_eq_getElem hx, by rw [hab]; exact List.getElem?_eq_getElem hy⟩
      | succ j =>
          rw [Nat.add_comm j 1, ← Nat.add_assoc, ← Nat.add_assoc]
          exact ih j (Nat.lt_of_succ_lt_succ hj)
  | case2 | case3 | case4 => exact fun j hj => absurd hj (Nat.not_lt_zero j)

theorem agreement_ends (a b : List α) (x y : Nat) {c : α} (ha : a[x + agreement a.toArray b.toArray x y]? = some c) :
    b[y + agreement a.toArray b.toArray x y]? ≠ some c := by
  fun_induction agreement a.toArray b.toArray x y with
  | case1 x y hx hy heq ih =>
      rw [Nat.add_comm (agreement ..) 1, ← Nat.add_assoc] at ha ⊢
      exact ih ha
  | case2 x y hx hy hne =>
      intro hb
      have hac : a[x] = c := Option.some.inj ((List.getElem?_eq_getElem hx).symm.trans ha)
      have hbc : b[y] = c := Option.some.inj ((List.getElem?_eq_getElem hy).symm.trans hb)
      exact hne (by simp [hac, hbc])
  | case3 x y hx hy =>
      intro hb
      exact hy (List.getElem?_eq_some_iff.1 hb).1
  | case4 x y hx => exact absurd (List.getElem?_eq_some_iff.1 ha).1 hx

/-- A start that no step leads behind: what is reached behind it on the diagonal is reached by agreements. -/
theorem isEdge_of_start (hdiagonal : x + 2 * i = y + d) (hreached : Reaches a b d x y)
    (hright : ∀ d' x' y', d = d' + 1 → x' + 1 + 2 * i = y' + d → Reaches a b d' x' y' → x' + 1 ≤ x)
    (hdown : ∀ d' x' y', d = d' + 1 → x' + 2 * i = y' + 1 + d → Reaches a b d' x' y' → x' ≤ x) :
    IsEdge a b d i ⟨x, y, agreement a.toArray b.toArray x y⟩ := by
  refine ⟨hdiagonal, hreached, agree_agreement a b x y, fun x' y' hdiagonal' h => ?_⟩
  generalize hn : agreement a.toArray b.toArray x y = n
  dsimp only
  by_contra hfar
  -- The first point behind the run is reached too, and the last step there can only be an agreement.
  obtain ⟨k, rfl⟩ : ∃ k, x' = x + n + 1 + k := ⟨x' - (x + n + 1), by omega⟩
  obtain rfl : y' = y + n + 1 + k := by omega
  rcases h.back.cases_last with ⟨h, -⟩ | ⟨d', x', rfl, hx', h⟩ | ⟨d', y', rfl, hy', h⟩ |
    ⟨x', y', c, hx', hy', ha, hb, -⟩
  · exact absurd h (Nat.succ_ne_zero _)
  · obtain rfl : x + n = x' := Nat.succ.inj hx'
    have := hright d' (x + n) (y + n + 1) rfl (by omega) h
    omega
  · obtain rfl : y + n = y' := Nat.succ.inj hy'
    have := hdown d' (x + n + 1) (y + n) rfl (by omega) h
    omega
  · obtain rfl : x + n = x' := Nat.succ.inj hx'
    obtain rfl : y + n = y' := Nat.succ.inj hy'
    rw [← hn] at ha hb
    exact agreement_ends a b x y ha hb

theorem isEdge_up {up : Nat} (hi : 0 < i) (hup : IsFurthest a b d (i - 1) up)
    (hright : ∀ x' y', x' + 1 + 2 * i = y' + (d + 1) → Reaches a b d x' y' → x' + 1 ≤ up) :
    IsEdge a b (d + 1) i ⟨up, up + 2 * i - (d + 1), agreement a.toArray b.toArray up (up + 2 * i - (d + 1))⟩ := by
  obtain ⟨⟨y, hy, hreached⟩, hfurthest⟩ := hup
  have hdown : up + 2 * i - (d + 1) = y + 1 := by omega
  rw [hdown]
  refine isEdge_of_start (by omega) hreached.down ?_ ?_
  · rintro d' x' y' ⟨⟩ hdiagonal h
    exact hright x' y' hdiagonal h
  · rintro d' x' y' ⟨⟩ hdiagonal h
    exact hfurthest x' y' (by omega) h

theorem isEdge_right {left : Nat} (hleft : IsFurthest a b d i left)
    (hdown : ∀ x' y', x' + 2 * i = y' + 1 + (d + 1) → Reaches a b d x' y' → x' ≤ left + 1) :
    IsEdge a b (d + 1) i
      ⟨left + 1, left + 1 + 2 * i - (d + 1),
        agreement a.toArray b.toArray (left + 1) (left + 1 + 2 * i - (d + 1))⟩ := by
  obtain ⟨⟨y, hy, hreached⟩, hfurthest⟩ := hleft
  have hright : left + 1 + 2 * i - (d + 1) = y := by omega
  rw [hright]
  refine isEdge_of_start (by omega) hreached.right ?_ ?_
  · rintro d' x' y' ⟨⟩ hdiagonal h
    exact Nat.succ_le_succ (hfurthest x' y' (by omega) h)
  · rintro d' x' y' ⟨⟩ hdiagonal h
    exact hdown x' y' hdiagonal h

theorem isEdge_advance {front : Array Nat} (h : Frontier a b d front) {r : Reach}
    (hr : (advance a.toArray b.toArray d front)[i]? = some r) : IsEdge a b d i r := by
  rw [advance, List.getElem?_map, Option.map_eq_some_iff] at hr
  obtain ⟨j, hj, rfl⟩ := hr
  obtain ⟨hi, rfl⟩ := List.getElem?_eq_some_iff.1 hj
  rw [List.length_range] at hi
  rw [List.getElem_range]
  cases d with
  | zero =>
      obtain rfl : i = 0 := by omega
      exact isEdge_of_start rfl (.origin a b 0) nofun nofun
  | succ d =>
      dsimp only
      rw [if_neg (Nat.succ_ne_zero d)]
      -- Left of a diagonal lies the one with the same index, right of it the one with the index before.
      have hleft (hi : i ≤ d) := h.getD hi
      have hup (hi : 0 < i) := h.getD (i := i - 1) (by omega)
      generalize front.getD i 0 = left at hleft ⊢
      generalize front.getD (i - 1) 0 = up at hup ⊢
      split
      · next hlast =>
          refine isEdge_up (by omega) (hup (by omega)) fun x' y' hdiagonal hreaches => ?_
          have := hreaches.le_right
          omega
      · next hlast =>
          split
          · next hfar =>
              refine isEdge_up (by omega) (hup (by omega)) fun x' y' hdiagonal hreaches => ?_
              have := (hleft (by omega)).furthest x' y' (by omega) hreaches
              omega
          · next hnear =>
              refine isEdge_right (hleft (by omega)) fun x' y' hdiagonal hreaches => ?_
              rcases Nat.eq_zero_or_pos i with rfl | hi
              · have := hreaches.le_left
                omega
              · have := (hup hi).furthest x' y' (by omega) hreaches
                omega

theorem Frontier.advance {front : Array Nat} (h : Frontier a b d front) :
    Frontier a b (d + 1) (frontier (advance a.toArray b.toArray d front)) := by
  refine ⟨?_, fun i x hx => ?_⟩
  · rw [frontier, List.size_toArray, List.length_map, Diff.advance, List.length_map, List.length_range]
  · rw [frontier, List.getElem?_toArray, List.getElem?_map, Option.map_eq_some_iff] at hx
    obtain ⟨r, hr, rfl⟩ := hx
    exact (isEdge_advance h hr).isFurthest

theorem exists_of_meeting {front opposite : Array Nat} {delta : Int} {r : Reach} (h : Frontier a b d front)
    (hopposite : Frontier a.reverse b.reverse (e + 1) opposite) (hdelta : delta = (a.length : Int) - b.length)
    (hparity : (a.length + b.length) % 2 = (d + e) % 2)
    (hr : meeting a.length delta d (advance a.toArray b.toArray d front) opposite e = some r) :
    ∃ i x y, IsEdge a b d i r ∧ Reaches a.reverse b.reverse e x y ∧
      r.x + r.run + x + b.length = r.y + r.run + y + a.length ∧ a.length ≤ r.x + r.run + x := by
  rw [meeting, Option.map_eq_some_iff] at hr
  obtain ⟨⟨r, i⟩, hfind, rfl⟩ := hr
  have hmem := List.mem_zipIdx_iff_getElem?.1 (List.mem_of_find?_eq_some hfind)
  have hfound := List.find?_some hfind
  obtain ⟨x, hx, hoverlap⟩ := (Option.any_eq_true _ _).1 hfound
  have hedge := isEdge_advance h hmem
  obtain ⟨j, hj, hfront⟩ := (onDiagonal_iff hopposite.size (by omega)).1 hx
  obtain ⟨y, hy, hreaches⟩ := (hopposite.furthest j x hfront).reached
  have := hedge.diagonal
  exact ⟨i, x, y, hedge, hreaches, by omega, by simpa using hoverlap⟩

theorem meeting_ne_none {front opposite : Array Nat} {delta : Int} (h : Frontier a b d front)
    (hopposite : Frontier a.reverse b.reverse (e + 1) opposite) (hdelta : delta = (a.length : Int) - b.length)
    (hs : IsLongestCommon s a b) (hde : a.length + b.length = d + e + 2 * s.length) :
    meeting a.length delta d (advance a.toArray b.toArray d front) opposite e ≠ none := by
  intro hnone
  obtain ⟨x, y, hx, hy, hreaches, hrest⟩ := Reaches.exists_split hs.left hs.right (Nat.le_of_eq hde)
  obtain ⟨⟨i, hi, hdiagonal⟩, j, hj, hopposed⟩ := hreaches.exact hx hy hrest hs hde
  obtain ⟨r, hr⟩ : ∃ r, (advance a.toArray b.toArray d front)[i]? = some r :=
    ⟨_, List.getElem?_eq_getElem (by rw [advance, List.length_map, List.length_range]; omega)⟩
  obtain ⟨x', hx'⟩ : ∃ x', opposite[j]? = some x' :=
    ⟨_, Array.getElem?_eq_getElem (by rw [hopposite.size]; omega)⟩
  have hfar := (isEdge_advance h hr).furthest x y hdiagonal hreaches
  have hfar' := (hopposite.furthest j x' hx').furthest _ _ hopposed hrest
  have hdiagonal' : onDiagonal opposite e (delta - (d - 2 * i)) = some x' :=
    (onDiagonal_iff hopposite.size (by omega)).2 ⟨j, by omega, hx'⟩
  rw [meeting, Option.map_eq_none_iff, List.find?_eq_none] at hnone
  refine hnone (r, i) (List.mem_zipIdx_iff_getElem?.2 hr) ?_
  simp only [hdiagonal', Option.any_some, decide_eq_true_eq]
  omega

section Cut

variable {front opposite : Array Nat} {r : Reach}

/-- Where the search from the start meets the one from the end, the run of agreements starts at a cut. -/
theorem isCut_start (h : Frontier a b (e + 1) front) (hopposite : Frontier a.reverse b.reverse (e + 1) opposite)
    (hs : IsLongestCommon s a b) (htwo : 2 + 2 * s.length ≤ a.length + b.length)
    (hde : e + 1 + e + 2 * s.length ≤ a.length + b.length) (hodd : (a.length + b.length) % 2 = 1)
    (hr : meeting a.length (a.length - b.length) (e + 1) (advance a.toArray b.toArray (e + 1) front) opposite e =
      some r) :
    IsCut a b r.x r.y := by
  obtain ⟨i, x, y, hedge, hreaches, hdiagonal, hoverlap⟩ := exists_of_meeting h hopposite rfl (by omega) hr
  obtain ⟨hx, hy, hrest⟩ := hedge.reached_end.meet hreaches hdiagonal hoverlap hs hde
  exact .of_reaches hs hde (by omega) (by omega) (by omega) (by omega) hedge.reached
    (Reaches.reverse_forth hedge.agree hrest)

/-- Where the search from the end meets the one from the start, its run of agreements ends at a cut. -/
theorem isCut_end (h : Frontier a.reverse b.reverse d front) (hopposite : Frontier a b (d + 1) opposite)
    (hs : IsLongestCommon s a b) (htwo : 2 + 2 * s.length ≤ a.length + b.length)
    (hde : d + d + 2 * s.length ≤ a.length + b.length) (heven : (a.length + b.length) % 2 = 0)
    (hr : meeting a.length (a.length - b.length) d (advance a.reverse.toArray b.reverse.toArray d front) opposite d =
      some r) :
    IsCut a b (a.length - (r.x + r.run)) (b.length - (r.y + r.run)) := by
  have hopposite' : Frontier a.reverse.reverse b.reverse.reverse (d + 1) opposite := by
    rwa [List.reverse_reverse, List.reverse_reverse]
  have hlength : a.length = a.reverse.length := List.length_reverse.symm
  rw [hlength] at hr
  obtain ⟨i, x, y, hedge, hreaches, hdiagonal, hoverlap⟩ :=
    exists_of_meeting h hopposite' (by simp) (by simp; omega) hr
  obtain ⟨hx, hy, hrest⟩ := hedge.reached_end.meet hreaches hdiagonal hoverlap hs.reverse (by simpa using hde)
  simp only [List.reverse_reverse, List.length_reverse] at hx hy hrest
  refine .of_reaches hs hde (by omega) (by omega) (Nat.sub_le ..) (Nat.sub_le ..) hrest ?_
  rw [Nat.sub_sub_self hx, Nat.sub_sub_self hy]
  exact hedge.reached_end

theorem meeting_end_ne_none (h : Frontier a.reverse b.reverse d front) (hopposite : Frontier a b (d + 1) opposite)
    (hs : IsLongestCommon s a b) (hde : a.length + b.length = d + d + 2 * s.length) :
    meeting a.length (a.length - b.length) d (advance a.reverse.toArray b.reverse.toArray d front) opposite d ≠
      none := by
  have hlength : a.length = a.reverse.length := List.length_reverse.symm
  rw [hlength]
  exact meeting_ne_none h (by rwa [List.reverse_reverse, List.reverse_reverse]) (by simp) hs.reverse
    (by simpa using hde)

theorem searchFrom_isCut (hs : IsLongestCommon s a b) (htwo : 2 + 2 * s.length ≤ a.length + b.length) (rounds : Nat)
    {forward backward : Array Nat} (hforward : Frontier a b d forward)
    (hbackward : Frontier a.reverse b.reverse d backward) (hmade : d + d + 2 * s.length ≤ a.length + b.length + 1)
    (hleft : a.length + b.length + 1 < d + d + 2 * rounds + 2 * s.length) :
    ∃ x y, searchFrom a.toArray b.toArray a.reverse.toArray b.reverse.toArray forward backward d rounds = some (x, y) ∧
      IsCut a b x y := by
  induction rounds generalizing d forward backward with
  | zero => omega
  | succ rounds ih =>
      have hnext := ih hforward.advance hbackward.advance
      rw [searchFrom]
      simp only [List.size_toArray]
      -- An odd number of steps is shared unevenly, so the directions meet before the second one makes its round.
      by_cases hodd : (a.length + b.length) % 2 = 1
      · have hdelta : ((a.length : Int) - b.length) % 2 ≠ 0 := by omega
        cases d with
        | zero =>
            simp only [ne_eq, hdelta, not_true_eq_false, and_false, not_false_eq_true, if_true, if_false]
            exact hnext (by omega) (by omega)
        | succ e =>
            simp only [ne_eq, hdelta, Nat.succ_ne_zero, not_false_eq_true, and_true, if_true, Nat.add_sub_cancel]
            cases hr : meeting a.length (a.length - b.length) (e + 1) (advance a.toArray b.toArray (e + 1) forward)
                backward e with
            | some r => exact ⟨r.x, r.y, rfl, isCut_start hforward hbackward hs htwo (by omega) hodd hr⟩
            | none =>
                have hmore : a.length + b.length ≠ e + 1 + e + 2 * s.length :=
                  fun hde => meeting_ne_none hforward hbackward rfl hs hde hr
                exact hnext (by omega) (by omega)
      · have hdelta : ((a.length : Int) - b.length) % 2 = 0 := by omega
        simp only [ne_eq, hdelta, not_true_eq_false, false_and, if_false]
        cases hr : meeting a.length (a.length - b.length) d (advance a.reverse.toArray b.reverse.toArray d backward)
            (frontier (advance a.toArray b.toArray d forward)) d with
        | some r => exact ⟨_, _, rfl, isCut_end hbackward hforward.advance hs htwo (by omega) (by omega) hr⟩
        | none =>
            have hmore : a.length + b.length ≠ d + d + 2 * s.length :=
              fun hde => meeting_end_ne_none hbackward hforward.advance hs hde hr
            exact hnext (by omega) (by omega)

/-- Lists that neither start nor end with the same element have a midpoint, and it is a cut. -/
theorem midpoint_isCut (ha : a ≠ []) (hb : b ≠ []) (hheads : a.head? ≠ b.head?) (hlasts : a.getLast? ≠ b.getLast?) :
    ∃ x y, midpoint a b = some (x, y) ∧ IsCut a b x y := by
  obtain ⟨s, hs⟩ := IsLongestCommon.exists_of a b
  have hle := Nat.add_le_add hs.left.length_le hs.right.length_le
  have htwo := two_le_distance hs.left hs.right ha hb hheads hlasts
  exact searchFrom_isCut hs htwo _ (.empty a b) (.empty _ _) (by omega) (by omega)

end Cut

end Inlay.Diff
