import Mathlib.Data.List.Basic
import Mathlib.Data.Nat.Find

namespace Inlay.Diff

variable {α : Type} {a b s t : List α} {d e x y : Nat}

/-- Elements that both lists have in this order, and no list of more. -/
structure IsLongestCommon (s a b : List α) : Prop where
  left : s.Sublist a
  right : s.Sublist b
  longest : ∀ t : List α, t.Sublist a → t.Sublist b → t.length ≤ s.length

namespace IsLongestCommon

theorem nil_left (b : List α) : IsLongestCommon [] [] b :=
  ⟨.slnil, List.nil_sublist b, fun _ h _ => h.length_le⟩

theorem symm (h : IsLongestCommon s a b) : IsLongestCommon s b a :=
  ⟨h.right, h.left, fun t hb ha => h.longest t ha hb⟩

theorem length_eq (h : IsLongestCommon s a b) (h' : IsLongestCommon t a b) : s.length = t.length :=
  Nat.le_antisymm (h'.longest s h.left h.right) (h.longest t h'.left h'.right)

theorem reverse (h : IsLongestCommon s a b) : IsLongestCommon s.reverse a.reverse b.reverse := by
  refine ⟨h.left.reverse, h.right.reverse, fun t ha hb => ?_⟩
  have hle := h.longest t.reverse (by simpa using ha.reverse) (by simpa using hb.reverse)
  rwa [List.length_reverse] at hle ⊢

theorem cons (h : IsLongestCommon s a b) (c : α) : IsLongestCommon (c :: s) (c :: a) (c :: b) := by
  refine ⟨h.left.cons_cons c, h.right.cons_cons c, fun t ha hb => ?_⟩
  cases t with
  | nil => exact Nat.zero_le _
  | cons c' t => exact Nat.succ_le_succ (h.longest t ha.tail hb.tail)

theorem prepend (h : IsLongestCommon s a b) (u : List α) : IsLongestCommon (u ++ s) (u ++ a) (u ++ b) := by
  induction u with
  | nil => exact h
  | cons c u ih => exact ih.cons c

theorem append (h : IsLongestCommon s a b) (u : List α) : IsLongestCommon (s ++ u) (a ++ u) (b ++ u) := by
  simpa using (h.reverse.prepend u.reverse).reverse

theorem exists_of (a b : List α) : ∃ s, IsLongestCommon s a b := by
  classical
  have hnil : ∃ s : List α, s.Sublist a ∧ s.Sublist b ∧ s.length = 0 :=
    ⟨[], List.nil_sublist a, List.nil_sublist b, rfl⟩
  have hspec := Nat.findGreatest_spec (P := fun n => ∃ s : List α, s.Sublist a ∧ s.Sublist b ∧ s.length = n)
    (Nat.zero_le a.length) hnil
  obtain ⟨s, ha, hb, hs⟩ := hspec
  refine ⟨s, ha, hb, fun t ha' hb' => ?_⟩
  rw [hs]
  exact Nat.le_findGreatest ha'.length_le ⟨t, ha', hb', rfl⟩

end IsLongestCommon

/-- With `d` insertions and deletions the first `x` elements of `a` become the first `y` of `b`. Behind the end of
a list nothing can be kept. -/
def Reaches (a b : List α) (d x y : Nat) : Prop :=
  ∃ s : List α, s.Sublist (a.take x) ∧ s.Sublist (b.take y) ∧ x + y ≤ d + 2 * s.length

namespace Reaches

theorem origin (a b : List α) (d : Nat) : Reaches a b d 0 0 :=
  ⟨[], List.nil_sublist _, List.nil_sublist _, Nat.zero_le _⟩

theorem symm (h : Reaches a b d x y) : Reaches b a d y x := by
  obtain ⟨s, ha, hb, hs⟩ := h
  exact ⟨s, hb, ha, by omega⟩

theorem right (h : Reaches a b d x y) : Reaches a b (d + 1) (x + 1) y := by
  obtain ⟨s, ha, hb, hs⟩ := h
  exact ⟨s, ha.trans (List.take_prefix_take_left (Nat.le_succ x)).sublist, hb, by omega⟩

theorem down (h : Reaches a b d x y) : Reaches a b (d + 1) x (y + 1) := h.symm.right.symm

theorem diagonal {c : α} (h : Reaches a b d x y) (ha : a[x]? = some c) (hb : b[y]? = some c) :
    Reaches a b d (x + 1) (y + 1) := by
  obtain ⟨s, hsa, hsb, hs⟩ := h
  refine ⟨s ++ [c], ?_, ?_, ?_⟩
  · rw [List.take_add_one, ha]
    exact hsa.append (.refl _)
  · rw [List.take_add_one, hb]
    exact hsb.append (.refl _)
  · rw [List.length_append, List.length_singleton]
    omega

theorem length_le_of_sublist_take (h : s.Sublist (a.take x)) : s.length ≤ x :=
  Nat.le_trans h.length_le (List.length_take_le x a)

theorem cons_left (h : Reaches a b d x y) (c : α) : Reaches (c :: a) b (d + 1) (x + 1) y := by
  obtain ⟨s, ha, hb, hs⟩ := h
  exact ⟨s, by rw [List.take_succ_cons]; exact ha.cons c, hb, by omega⟩

theorem cons_right (h : Reaches a b d x y) (c : α) : Reaches a (c :: b) (d + 1) x (y + 1) := (h.symm.cons_left c).symm

theorem cons_cons (h : Reaches a b d x y) (c : α) : Reaches (c :: a) (c :: b) d (x + 1) (y + 1) := by
  obtain ⟨s, ha, hb, hs⟩ := h
  refine ⟨c :: s, ?_, ?_, ?_⟩
  · rw [List.take_succ_cons]
    exact ha.cons_cons c
  · rw [List.take_succ_cons]
    exact hb.cons_cons c
  · rw [List.length_cons]
    omega

theorem le_left (h : Reaches a b d x y) : x ≤ d + y := by
  obtain ⟨s, -, hb, hs⟩ := h
  have := length_le_of_sublist_take hb
  omega

theorem le_right (h : Reaches a b d x y) : y ≤ d + x := h.symm.le_left

theorem sublist_take_succ (h : s.Sublist (a.take (x + 1))) :
    s.Sublist (a.take x) ∨ ∃ t c, s = t ++ [c] ∧ a[x]? = some c ∧ t.Sublist (a.take x) := by
  rw [List.take_add_one, List.sublist_append_iff] at h
  obtain ⟨t, u, rfl, ht, hu⟩ := h
  cases hc : a[x]? with
  | none =>
      rw [hc, Option.toList_none, List.sublist_nil] at hu
      exact .inl (by rwa [hu, List.append_nil])
  | some c =>
      rw [hc, Option.toList_some, List.sublist_singleton] at hu
      rcases hu with rfl | rfl
      · exact .inl (by rwa [List.append_nil])
      · exact .inr ⟨t, c, rfl, rfl, ht⟩

theorem cases_last (h : Reaches a b d x y) : (x = 0 ∧ y = 0) ∨
    (∃ d' x', d = d' + 1 ∧ x = x' + 1 ∧ Reaches a b d' x' y) ∨
    (∃ d' y', d = d' + 1 ∧ y = y' + 1 ∧ Reaches a b d' x y') ∨
    ∃ x' y' c, x = x' + 1 ∧ y = y' + 1 ∧ a[x']? = some c ∧ b[y']? = some c ∧ Reaches a b d x' y' := by
  obtain ⟨s, ha, hb, hs⟩ := h
  have hlb := length_le_of_sublist_take hb
  cases x with
  | zero =>
      obtain rfl := List.sublist_nil.1 ha
      cases y with
      | zero => exact .inl ⟨rfl, rfl⟩
      | succ y =>
          rw [List.length_nil] at hs
          refine .inr (.inr (.inl ⟨d - 1, y, by omega, rfl, [], ha, List.nil_sublist _, ?_⟩))
          rw [List.length_nil]
          omega
  | succ x =>
      rcases sublist_take_succ ha with ha | ⟨t, c, rfl, hc, ha⟩
      · have hla := length_le_of_sublist_take ha
        exact .inr (.inl ⟨d - 1, x, by omega, rfl, s, ha, hb, by omega⟩)
      · have hla := length_le_of_sublist_take ha
        rw [List.length_append, List.length_singleton] at hs hlb
        cases y with
        | zero => omega
        | succ y =>
            rcases sublist_take_succ hb with hb | ⟨t', c', heq, hc', hb⟩
            · have hlb := length_le_of_sublist_take hb
              rw [List.length_append, List.length_singleton] at hlb
              refine .inr (.inr (.inl ⟨d - 1, y, by omega, rfl, t ++ [c], ?_, hb, ?_⟩))
              · rw [List.take_add_one, hc]
                exact ha.append (.refl _)
              · rw [List.length_append, List.length_singleton]
                omega
            · obtain ⟨rfl, hcc⟩ := List.append_inj' heq rfl
              obtain rfl := List.singleton_inj.1 hcc
              exact .inr (.inr (.inr ⟨x, y, c, rfl, rfl, hc, hc', t, ha, hb, by omega⟩))

theorem dropLast_sublist_take (h : s.Sublist (a.take (x + 1))) : s.dropLast.Sublist (a.take x) := by
  rcases sublist_take_succ h with h | ⟨t, c, rfl, -, ht⟩
  · exact (List.dropLast_sublist s).trans h
  · rwa [List.dropLast_concat]

theorem back {k : Nat} (h : Reaches a b d (x + k) (y + k)) : Reaches a b d x y := by
  induction k with
  | zero => exact h
  | succ k ih =>
      obtain ⟨s, ha, hb, hs⟩ := h
      refine ih ⟨s.dropLast, dropLast_sublist_take ha, dropLast_sublist_take hb, ?_⟩
      rw [List.length_dropLast]
      omega

def Agree (a b : List α) (x y k : Nat) : Prop := ∀ j < k, ∃ c, a[x + j]? = some c ∧ b[y + j]? = some c

theorem forth {k : Nat} (h : Reaches a b d x y) (hk : Agree a b x y k) : Reaches a b d (x + k) (y + k) := by
  induction k with
  | zero => exact h
  | succ k ih =>
      obtain ⟨c, ha, hb⟩ := hk k (Nat.lt_succ_self k)
      exact (ih fun j hj => hk j (Nat.lt_succ_of_lt hj)).diagonal ha hb

theorem reverse_forth {k : Nat} (hk : Agree a b x y k)
    (h : Reaches a.reverse b.reverse e (a.length - (x + k)) (b.length - (y + k))) :
    Reaches a.reverse b.reverse e (a.length - x) (b.length - y) := by
  induction k with
  | zero => exact h
  | succ k ih =>
      obtain ⟨c, ha, hb⟩ := hk k (Nat.lt_succ_self k)
      refine ih (fun j hj => hk j (Nat.lt_succ_of_lt hj)) ?_
      obtain ⟨hxa, -⟩ := List.getElem?_eq_some_iff.1 ha
      obtain ⟨hyb, -⟩ := List.getElem?_eq_some_iff.1 hb
      have hstep := h.diagonal (c := c)
        (by rw [List.getElem?_reverse (by omega), ← ha]; congr 1; omega)
        (by rw [List.getElem?_reverse (by omega), ← hb]; congr 1; omega)
      have hx : a.length - (x + (k + 1)) + 1 = a.length - (x + k) := by omega
      have hy : b.length - (y + (k + 1)) + 1 = b.length - (y + k) := by omega
      rwa [hx, hy] at hstep

theorem reverse_iff (hx : x ≤ a.length) (hy : y ≤ b.length) :
    Reaches a.reverse b.reverse e (a.length - x) (b.length - y) ↔
      ∃ t : List α, t.Sublist (a.drop x) ∧ t.Sublist (b.drop y) ∧
        (a.length - x) + (b.length - y) ≤ e + 2 * t.length := by
  have hdrop {l : List α} {z : Nat} (hz : z ≤ l.length) : l.reverse.take (l.length - z) = (l.drop z).reverse := by
    rw [List.take_reverse, Nat.sub_sub_self hz]
  rw [Reaches, hdrop hx, hdrop hy]
  constructor
  · rintro ⟨t, ha, hb, ht⟩
    exact ⟨t.reverse, by simpa using ha.reverse, by simpa using hb.reverse, by rwa [List.length_reverse]⟩
  · rintro ⟨t, ha, hb, ht⟩
    exact ⟨t.reverse, ha.reverse, hb.reverse, by rwa [List.length_reverse]⟩

theorem length_le (h : Reaches a b d x y) (hs : IsLongestCommon s a b) : x + y ≤ d + 2 * s.length := by
  obtain ⟨t, ha, hb, ht⟩ := h
  have := hs.longest t (ha.trans (List.take_sublist x a)) (hb.trans (List.take_sublist y b))
  omega

theorem exact (hx : x ≤ a.length) (hy : y ≤ b.length) (h : Reaches a b d x y)
    (h' : Reaches a.reverse b.reverse e (a.length - x) (b.length - y)) (hs : IsLongestCommon s a b)
    (hde : a.length + b.length = d + e + 2 * s.length) :
    (∃ i ≤ d, x + 2 * i = y + d) ∧ ∃ j ≤ e, a.length - x + 2 * j = b.length - y + e := by
  obtain ⟨u, hua, hub, hu⟩ := h
  obtain ⟨v, hva, hvb, hv⟩ := (reverse_iff hx hy).1 h'
  have hboth := hs.longest (u ++ v) (by rw [← List.take_append_drop x a]; exact hua.append hva)
    (by rw [← List.take_append_drop y b]; exact hub.append hvb)
  have hux := length_le_of_sublist_take hua
  have huy := length_le_of_sublist_take hub
  have hvx := hva.length_le
  have hvy := hvb.length_le
  rw [List.length_append] at hboth
  rw [List.length_drop] at hvx hvy
  exact ⟨⟨y - u.length, by omega, by omega⟩, b.length - y - v.length, by omega, by omega⟩

/-- Points of the two directions that lie on one diagonal and leave nothing between them, with no more steps
together than it takes: the first one is within the lists, and the other direction reaches it. -/
theorem meet {x' y' : Nat} (h : Reaches a b d x y) (h' : Reaches a.reverse b.reverse e x' y')
    (hdiagonal : x + x' + b.length = y + y' + a.length) (hoverlap : a.length ≤ x + x') (hs : IsLongestCommon s a b)
    (hde : d + e + 2 * s.length ≤ a.length + b.length) :
    x ≤ a.length ∧ y ≤ b.length ∧ Reaches a.reverse b.reverse e (a.length - x) (b.length - y) := by
  have hle := h.length_le hs
  have hleft := h'.le_left
  have hright := h'.le_right
  obtain ⟨k, rfl⟩ : ∃ k, x' = a.length - x + k := ⟨x' - (a.length - x), by omega⟩
  obtain rfl : y' = b.length - y + k := by omega
  exact ⟨by omega, by omega, h'.back⟩

/-- A longest common part can be cut where `d` steps from the start leave at most `e` to the end. -/
theorem exists_split (ha : s.Sublist a) (hb : s.Sublist b) (h : a.length + b.length ≤ d + e + 2 * s.length) :
    ∃ x y, x ≤ a.length ∧ y ≤ b.length ∧ Reaches a b d x y ∧
      Reaches a.reverse b.reverse e (a.length - x) (b.length - y) := by
  suffices hsplit : ∃ x y, x ≤ a.length ∧ y ≤ b.length ∧ Reaches a b d x y ∧ ∃ t : List α, t.Sublist (a.drop x) ∧
      t.Sublist (b.drop y) ∧ (a.length - x) + (b.length - y) ≤ e + 2 * t.length by
    obtain ⟨x, y, hx, hy, hreaches, hrest⟩ := hsplit
    exact ⟨x, y, hx, hy, hreaches, (reverse_iff hx hy).2 hrest⟩
  -- Each element in front is kept or takes one of the `d` steps. Where no step is left, the rest goes to the end.
  have hhere {a b s : List α} (ha : s.Sublist a) (hb : s.Sublist b) (h : a.length + b.length ≤ 0 + e + 2 * s.length) :
      ∃ x y, x ≤ a.length ∧ y ≤ b.length ∧ Reaches a b 0 x y ∧ ∃ t : List α, t.Sublist (a.drop x) ∧
        t.Sublist (b.drop y) ∧ (a.length - x) + (b.length - y) ≤ e + 2 * t.length :=
    ⟨0, 0, Nat.zero_le _, Nat.zero_le _, origin a b 0, s, ha, hb, by omega⟩
  induction ha generalizing b d with
  | slnil =>
      refine ⟨0, min d b.length, Nat.le_refl 0, Nat.min_le_right .., ⟨[], .slnil, List.nil_sublist _, ?_⟩, [], .slnil,
        List.nil_sublist _, ?_⟩
      · rw [List.length_nil]
        omega
      · rw [List.length_nil] at h ⊢
        omega
  | @cons s a c ha ih =>
      cases d with
      | zero => exact hhere (ha.cons c) hb h
      | succ d =>
          rw [List.length_cons] at h
          obtain ⟨x, y, hx, hy, hreaches, t, hta, htb, ht⟩ := ih (d := d) hb (by omega)
          exact ⟨x + 1, y, Nat.succ_le_succ hx, hy, hreaches.cons_left c, t, hta, htb, by rw [List.length_cons]; omega⟩
  | @cons_cons s a c ha ih =>
      induction b generalizing d with
      | nil => exact absurd hb nofun
      | cons c' b ihb =>
          cases hb with
          | cons _ hb =>
              cases d with
              | zero => exact hhere (ha.cons_cons c) (hb.cons c') h
              | succ d =>
                  have hlength : (c' :: b).length = b.length + 1 := rfl
                  obtain ⟨x, y, hx, hy, hreaches, t, hta, htb, ht⟩ := ihb (d := d) hb (by omega)
                  exact ⟨x, y + 1, hx, Nat.succ_le_succ hy, hreaches.cons_right c', t, hta, htb,
                    by omega⟩
          | cons_cons _ hb =>
              simp only [List.length_cons] at h
              obtain ⟨x, y, hx, hy, hreaches, t, hta, htb, ht⟩ := ih (d := d) hb (by omega)
              exact ⟨x + 1, y + 1, Nat.succ_le_succ hx, Nat.succ_le_succ hy, hreaches.cons_cons c, t, hta, htb,
                by simp only [List.length_cons]; omega⟩

end Reaches

/-- A point within the lists, other than their ends, at which a longest common part can be cut. -/
structure IsCut (a b : List α) (x y : Nat) : Prop where
  le_left : x ≤ a.length
  le_right : y ≤ b.length
  pos : 0 < x + y
  lt : x + y < a.length + b.length
  append : ∀ s t : List α, IsLongestCommon s (a.take x) (b.take y) → IsLongestCommon t (a.drop x) (b.drop y) →
    IsLongestCommon (s ++ t) a b

/-- A point that both directions reach with no more steps together than it takes is a cut, if neither direction
reaches all the way. -/
theorem IsCut.of_reaches (hs : IsLongestCommon s a b) (hde : d + e + 2 * s.length ≤ a.length + b.length)
    (hd : d + 2 * s.length < a.length + b.length) (he : e + 2 * s.length < a.length + b.length)
    (hx : x ≤ a.length) (hy : y ≤ b.length) (h : Reaches a b d x y)
    (h' : Reaches a.reverse b.reverse e (a.length - x) (b.length - y)) : IsCut a b x y := by
  have hle := h.length_le hs
  have hle' := h'.length_le hs.reverse
  rw [List.length_reverse] at hle'
  refine ⟨hx, hy, by omega, by omega, fun u v hu hv => ⟨?_, ?_, fun t hta htb => ?_⟩⟩
  · have happend := hu.left.append hv.left
    rwa [List.take_append_drop] at happend
  · have happend := hu.right.append hv.right
    rwa [List.take_append_drop] at happend
  · obtain ⟨u', hua, hub, hu'⟩ := h
    obtain ⟨v', hva, hvb, hv'⟩ := (Reaches.reverse_iff hx hy).1 h'
    have := hs.longest t hta htb
    have := hu.longest u' hua hub
    have := hv.longest v' hva hvb
    rw [List.length_append]
    omega

theorem head?_or_getLast?_eq (h : a.Sublist b) (hlength : b.length ≤ a.length + 1) (hne : a ≠ []) :
    a.head? = b.head? ∨ a.getLast? = b.getLast? := by
  cases h with
  | slnil => exact .inl rfl
  | cons c h =>
      obtain rfl := h.eq_of_length_le (Nat.le_of_succ_le_succ hlength)
      exact .inr (List.getLast?_cons_of_ne_nil hne).symm
  | cons_cons c h => exact .inl rfl

theorem two_le_distance (ha : s.Sublist a) (hb : s.Sublist b) (hane : a ≠ []) (hbne : b ≠ [])
    (hheads : a.head? ≠ b.head?) (hlasts : a.getLast? ≠ b.getLast?) : 2 + 2 * s.length ≤ a.length + b.length := by
  have hla := ha.length_le
  have hlb := hb.length_le
  by_contra hfew
  rcases Nat.lt_or_ge s.length a.length with hlt | hge
  · obtain rfl := hb.eq_of_length_le (by omega)
    rcases head?_or_getLast?_eq ha (by omega) hbne with h | h
    · exact hheads h.symm
    · exact hlasts h.symm
  · obtain rfl := ha.eq_of_length_le hge
    rcases head?_or_getLast?_eq hb (by omega) hane with h | h
    · exact hheads h
    · exact hlasts h

end Inlay.Diff
