import Inlay.Proofs.Unified

namespace Inlay.Diff

structure Mark where
  kind : Kind
  line : Line
  deriving DecidableEq, Repr

namespace Mark

variable {radius n : Nat} {before after s t : List Mark}

def isChange (m : Mark) : Bool := m.kind ≠ .keep

def linesWhere (p : Kind → Bool) (s : List Mark) : List Line := (s.filter fun m => p m.kind).map (·.line)

@[simp] theorem linesWhere_append (p : Kind → Bool) (s t : List Mark) :
    linesWhere p (s ++ t) = linesWhere p s ++ linesWhere p t := by
  simp [linesWhere]

@[simp] theorem linesWhere_map (p : Kind → Bool) (k : Kind) (ls : List Line) :
    linesWhere p (ls.map (mk k)) = if p k then ls else [] := by
  cases hk : p k <;> simp [linesWhere, List.filter_map, Function.comp_def, hk]

def oldSide (s : List Mark) : List Line := linesWhere (· ≠ .add) s

def newSide (s : List Mark) : List Line := linesWhere (· ≠ .remove) s

def linesOf (k : Kind) (s : List Mark) : List Line := linesWhere (· = k) s

def isNear (n : Nat) (s : List Mark) : Bool := (s.take n).any isChange

def withinFrom (radius : Nat) (before : List Mark) : List Mark → List Mark
  | [] => []
  | m :: after =>
    let rest := withinFrom radius (m :: before) after
    if m.isChange || isNear radius before || isNear radius after then m :: rest else rest

/-- The changes of a script, and the kept lines with a change among the `radius` lines before them or among the
`radius` lines after them. -/
def within (radius : Nat) (s : List Mark) : List Mark := withinFrom radius [] s

theorem isNear_mono {m : Nat} (h : m ≤ n) (hs : isNear m s) : isNear n s := by
  rw [isNear, List.any_eq_true] at hs ⊢
  obtain ⟨x, hx, hchange⟩ := hs
  exact ⟨x, (List.take_prefix_take_left h).subset hx, hchange⟩

theorem isNear_append (s : List Mark) (h : isNear n t) : isNear (s.length + n) (s ++ t) := by
  rw [isNear, List.take_length_add_append, List.any_append, Bool.or_eq_true]
  exact .inr h

theorem isNear_of_isChange (hs : ∀ m ∈ s, m.isChange) (hne : s ≠ []) (t : List Mark) : isNear 1 (s ++ t) := by
  cases s with
  | nil => exact absurd rfl hne
  | cons m s => simpa [isNear] using hs m List.mem_cons_self

theorem not_isNear_append (hs : ∀ m ∈ s, ¬ m.isChange) (ht : ¬ isNear n t) : ¬ isNear n (s ++ t) := by
  intro h
  have h := isNear_mono (Nat.le_add_left n s.length) h
  rw [isNear, List.take_length_add_append, List.any_append, Bool.or_eq_true] at h
  rcases h with h | h
  · obtain ⟨m, hm, hchange⟩ := List.any_eq_true.1 h
    exact hs m hm hchange
  · exact ht h

section Pieces

theorem withinFrom_shown (h : ∀ u m v, s = u ++ m :: v →
      m.isChange ∨ isNear radius (u.reverse ++ before) ∨ isNear radius (v ++ after)) :
    withinFrom radius before (s ++ after) = s ++ withinFrom radius (s.reverse ++ before) after := by
  induction s generalizing before with
  | nil => rfl
  | cons m s ih =>
      have hm : m.isChange ∨ isNear radius before ∨ isNear radius (s ++ after) := h [] m s rfl
      have hrest : withinFrom radius (m :: before) (s ++ after) =
          s ++ withinFrom radius (s.reverse ++ m :: before) after := by
        refine ih fun u m' v hs => ?_
        simpa using h (m :: u) m' v (by rw [hs, List.cons_append])
      have hcondition : (m.isChange || isNear radius before || isNear radius (s ++ after)) = true := by
        rwa [Bool.or_eq_true, Bool.or_eq_true, or_assoc]
      rw [List.cons_append, withinFrom, if_pos hcondition, hrest]
      simp

theorem withinFrom_changes (hs : ∀ m ∈ s, m.isChange) (before after : List Mark) :
    withinFrom radius before (s ++ after) = s ++ withinFrom radius (s.reverse ++ before) after := by
  refine withinFrom_shown fun u m v h => .inl (hs m ?_)
  rw [h]
  exact List.mem_append_right u List.mem_cons_self

theorem withinFrom_away (hs : ∀ m ∈ s, ¬ m.isChange) (hbefore : ¬ isNear radius before)
    (hafter : ¬ isNear radius after) :
    withinFrom radius before (s ++ after) = withinFrom radius (s.reverse ++ before) after := by
  induction s generalizing before with
  | nil => rfl
  | cons m s ih =>
      obtain ⟨hm, hs⟩ := List.forall_mem_cons.1 hs
      have haway : ¬ isNear radius (s ++ after) := not_isNear_append hs hafter
      have hbefore' : ¬ isNear radius (m :: before) := not_isNear_append (s := [m]) (by simpa using hm) hbefore
      have hrest := ih hs hbefore'
      simp [withinFrom, hm, hbefore, haway, hrest]

end Pieces

section Within

theorem withinFrom_sublist_withinFrom {radius' : Nat} (h : radius ≤ radius') (before s : List Mark) :
    (withinFrom radius before s).Sublist (withinFrom radius' before s) := by
  induction s generalizing before with
  | nil => exact .slnil
  | cons m s ih =>
      have hrest := ih (m :: before)
      simp only [withinFrom]
      split
      · next hnear =>
          have hnear' : (m.isChange || isNear radius' before || isNear radius' s) = true := by
            simp only [Bool.or_eq_true] at hnear ⊢
            exact hnear.imp (Or.imp_right (isNear_mono h)) (isNear_mono h)
          rw [if_pos hnear']
          exact hrest.cons_cons m
      · split
        · exact hrest.cons m
        · exact hrest

theorem within_sublist_within {radius' : Nat} (h : radius ≤ radius') (s : List Mark) :
    (within radius s).Sublist (within radius' s) :=
  withinFrom_sublist_withinFrom h [] s

theorem withinFrom_zero (before s : List Mark) : withinFrom 0 before s = s.filter isChange := by
  induction s generalizing before with
  | nil => rfl
  | cons m s ih => simp [withinFrom, isNear, ih, List.filter_cons]

theorem within_zero (s : List Mark) : within 0 s = s.filter isChange := withinFrom_zero [] s

theorem filter_withinFrom (radius : Nat) (before s : List Mark) :
    (withinFrom radius before s).filter isChange = s.filter isChange := by
  induction s generalizing before with
  | nil => rfl
  | cons m s ih =>
      simp only [withinFrom]
      split
      · rw [List.filter_cons, List.filter_cons, ih]
      · next hfar =>
          have hm : ¬ m.isChange := by
            rw [Bool.or_eq_true, Bool.or_eq_true] at hfar
            exact fun hm => hfar (.inl (.inl hm))
          rw [List.filter_cons_of_neg hm, ih]

theorem filter_within (radius : Nat) (s : List Mark) : (within radius s).filter isChange = s.filter isChange :=
  filter_withinFrom radius [] s

theorem withinFrom_sublist (radius : Nat) (before s : List Mark) : (withinFrom radius before s).Sublist s := by
  induction s generalizing before with
  | nil => exact .slnil
  | cons m s ih =>
      simp only [withinFrom]
      split
      · exact (ih _).cons_cons m
      · exact (ih _).cons m

theorem within_sublist (radius : Nat) (s : List Mark) : (within radius s).Sublist s := withinFrom_sublist radius [] s

end Within

section Keeps

variable {ls : List Line}

def keeps (ls : List Line) : List Mark := ls.map (mk .keep)

@[simp] theorem keeps_append (ls ls' : List Line) : keeps (ls ++ ls') = keeps ls ++ keeps ls' := List.map_append

@[simp] theorem length_keeps (ls : List Line) : (keeps ls).length = ls.length := List.length_map _

@[simp] theorem reverse_keeps (ls : List Line) : (keeps ls).reverse = keeps ls.reverse := List.map_reverse.symm

theorem not_isChange_of_mem_keeps {m : Mark} (hm : m ∈ keeps ls) : ¬ m.isChange := by
  obtain ⟨l, -, rfl⟩ := List.mem_map.1 hm
  simp [isChange]

theorem not_isNear_keeps (hn : n ≤ ls.length) (s : List Mark) : ¬ isNear n (keeps ls ++ s) := by
  rw [isNear, List.take_append_of_le_length (by rwa [length_keeps]), List.any_eq_true]
  rintro ⟨m, hm, hchange⟩
  exact not_isChange_of_mem_keeps (List.mem_of_mem_take hm) hchange

theorem keeps_behind (hbefore : isNear 1 before) (hls : ls.length ≤ radius) (after : List Mark) :
    withinFrom radius before (keeps ls ++ after) =
      keeps ls ++ withinFrom radius (keeps ls.reverse ++ before) after := by
  rw [← reverse_keeps]
  refine withinFrom_shown fun u m v h => .inr (.inl (isNear_mono ?_ (isNear_append u.reverse hbefore)))
  have hlength := congrArg List.length h
  simp only [length_keeps, List.length_append, List.length_cons, List.length_reverse] at hlength ⊢
  omega

theorem keeps_ahead (hafter : isNear 1 after) (hls : ls.length ≤ radius) (before : List Mark) :
    withinFrom radius before (keeps ls ++ after) =
      keeps ls ++ withinFrom radius (keeps ls.reverse ++ before) after := by
  rw [← reverse_keeps]
  refine withinFrom_shown fun u m v h => .inr (.inr (isNear_mono ?_ (isNear_append v hafter)))
  have hlength := congrArg List.length h
  simp only [length_keeps, List.length_append, List.length_cons] at hlength
  omega

theorem keeps_away (hbefore : ¬ isNear radius before) (hafter : ¬ isNear radius after) (ls : List Line) :
    withinFrom radius before (keeps ls ++ after) = withinFrom radius (keeps ls.reverse ++ before) after := by
  rw [← reverse_keeps]
  exact withinFrom_away (fun _ => not_isChange_of_mem_keeps) hbefore hafter

theorem not_isNear_nil (n : Nat) : ¬ isNear n [] := by simp [isNear]

theorem keeps_away_from_end (hbefore : ¬ isNear radius before) (ls : List Line) :
    withinFrom radius before (keeps ls) = [] := by
  have haway := keeps_away hbefore (not_isNear_nil radius) ls
  rwa [List.append_nil] at haway

theorem within_keeps (radius : Nat) (ls : List Line) : within radius (keeps ls) = [] :=
  keeps_away_from_end (not_isNear_nil radius) ls

theorem withinFrom_last_keeps (hbefore : isNear 1 before) (ls : List Line) :
    withinFrom radius before (keeps ls) = keeps (ls.take radius) := by
  have hfirst := keeps_behind hbefore (List.length_take_le radius ls) (keeps (ls.drop radius))
  rw [← keeps_append, List.take_append_drop] at hfirst
  suffices hrest : withinFrom radius (keeps (ls.take radius).reverse ++ before) (keeps (ls.drop radius)) = [] by
    rw [hfirst, hrest, List.append_nil]
  rcases Nat.le_total radius ls.length with hlong | hshort
  · exact keeps_away_from_end (not_isNear_keeps (by simp [hlong]) before) _
  · rw [List.drop_of_length_le hshort]
    rfl

theorem within_first_keeps (hafter : isNear 1 after) (ls : List Line) :
    within radius (keeps ls ++ after) =
      keeps (ls.drop (ls.length - radius)) ++ withinFrom radius (keeps ls.reverse) after := by
  have hlength : (ls.drop (ls.length - radius)).length ≤ radius := by
    rw [List.length_drop]
    omega
  have hlast := keeps_ahead hafter hlength (keeps (ls.take (ls.length - radius)).reverse)
  rw [← keeps_append, ← List.reverse_append, List.take_append_drop] at hlast
  rw [← hlast]
  rcases Nat.le_total radius ls.length with hlong | hshort
  · have hfull : radius ≤ (ls.drop (ls.length - radius)).length := by
      rw [List.length_drop]
      omega
    have haway := keeps_away (not_isNear_nil radius) (not_isNear_keeps hfull after) (ls.take (ls.length - radius))
    rwa [← List.append_assoc, ← keeps_append, List.take_append_drop, List.append_nil] at haway
  · rw [Nat.sub_eq_zero_of_le hshort]
    rfl

/-- Of a long run of kept lines between two changes, the first and the last are near one. -/
theorem withinFrom_long {first last : List Line} (skipped : List Line) (hbefore : isNear 1 before)
    (hafter : isNear 1 after) (hfirst : first.length = radius) (hlast : last.length = radius) :
    withinFrom radius before (keeps (first ++ skipped ++ last) ++ after) =
      keeps first ++ keeps last ++ withinFrom radius (keeps (first ++ skipped ++ last).reverse ++ before) after := by
  simp only [keeps_append, List.append_assoc, List.reverse_append]
  rw [keeps_behind hbefore hfirst.le, keeps_away, keeps_ahead hafter hlast.le]
  · exact not_isNear_keeps (by simp [hfirst]) before
  · exact not_isNear_keeps hlast.ge after

theorem withinFrom_short (hbefore : isNear 1 before) (hafter : isNear 1 after) (hls : ls.length ≤ 2 * radius) :
    withinFrom radius before (keeps ls ++ after) =
      keeps ls ++ withinFrom radius (keeps ls.reverse ++ before) after := by
  have hsplit := List.take_append_drop radius ls
  rw [← hsplit]
  simp only [keeps_append, List.append_assoc, List.reverse_append]
  rw [keeps_behind hbefore (List.length_take_le ..), keeps_ahead hafter (by rw [List.length_drop]; omega)]

end Keeps

end Mark

namespace Block

open Mark

variable {radius : Nat} {b : Block} {bs : List Block} {before after : List Mark}

def marks : Block → List Mark
  | keep _ _ ls => keeps ls
  | change _ _ removed added => removed.map (Mark.mk .remove) ++ added.map (Mark.mk .add)

section Sides

variable (bs : List Block)

theorem linesWhere_marks {p : Kind → Bool} {lines : Block → List Line}
    (h : ∀ b : Block, linesWhere p b.marks = lines b) : linesWhere p (bs.flatMap marks) = bs.flatMap lines := by
  induction bs with
  | nil => rfl
  | cons b bs ih => simp [h, ih]

theorem oldSide_marks : Mark.oldSide (bs.flatMap marks) = oldSide bs :=
  linesWhere_marks bs fun b => by cases b <;> simp [marks, keeps, oldLines]

theorem newSide_marks : Mark.newSide (bs.flatMap marks) = newSide bs :=
  linesWhere_marks bs fun b => by cases b <;> simp [marks, keeps, newLines]

theorem linesOf_keep_marks : Mark.linesOf .keep (bs.flatMap marks) = kept bs :=
  linesWhere_marks bs fun b => by cases b <;> simp [marks, keeps, keptLines]

end Sides

section Hunks

variable {ls : List Line} {o w : Nat} {removed added : List Line}

theorem isChange_of_mem_change {m : Mark} (hm : m ∈ (change o w removed added).marks) : m.isChange := by
  rcases List.mem_append.1 hm with hm | hm
  · obtain ⟨l, -, rfl⟩ := List.mem_map.1 hm
    rfl
  · obtain ⟨l, -, rfl⟩ := List.mem_map.1 hm
    rfl

theorem Alternate.of_cons (h : Alternate (b :: bs)) : Alternate bs :=
  ⟨fun c hc => h.filled c (List.mem_cons_of_mem b hc), h.separate.of_cons⟩

theorem Alternate.isNear (h : Alternate (change o w removed added :: bs)) (s : List Mark) :
    isNear 1 ((change o w removed added).marks ++ s) ∧ isNear 1 ((change o w removed added).marks.reverse ++ s) := by
  have hne : (change o w removed added).marks ≠ [] := by
    simpa [marks, oldLines, newLines] using (h.filled _ List.mem_cons_self).resolve_left id
  exact ⟨isNear_of_isChange (fun _ => isChange_of_mem_change) hne s,
    isNear_of_isChange (fun _ hm => isChange_of_mem_change (List.mem_reverse.1 hm)) (by simpa using hne) s⟩

def squeezed (radius : Nat) : Block → List Mark
  | keep _ _ ls =>
    if 2 * radius < ls.length then keeps (ls.take radius) ++ keeps (ls.drop (ls.length - radius)) else keeps ls
  | b => b.marks

theorem withinFrom_keep (hbefore : isNear 1 before) (hafter : isNear 1 after) (o w : Nat) (ls : List Line) :
    withinFrom radius before ((keep o w ls).marks ++ after) =
      (keep o w ls).squeezed radius ++ withinFrom radius (keeps ls.reverse ++ before) after := by
  rw [squeezed, marks]
  split
  · next hlong =>
      have hfirst : (ls.take radius).length = radius := List.length_take_of_le (by omega)
      have hlast : (ls.drop (ls.length - radius)).length = radius := by
        rw [List.length_drop]
        omega
      obtain ⟨skipped, hls⟩ : ∃ skipped, ls = ls.take radius ++ skipped ++ ls.drop (ls.length - radius) :=
        ⟨_, (Script.take_append_middle_append_drop (by omega)).symm⟩
      have hrun := withinFrom_long skipped hbefore hafter hfirst hlast
      rwa [← hls] at hrun
  · next hshort => exact withinFrom_short hbefore hafter (by omega)

theorem onLast_cons (f : Block → Block) (b : Block) (hbs : bs ≠ []) : onLast f (b :: bs) = b :: onLast f bs := by
  obtain ⟨front, last, rfl⟩ := (List.eq_nil_or_concat' bs).resolve_left hbs
  rw [onLast_append, ← List.cons_append, onLast_append, List.cons_append]

theorem onLast_cons_change (radius o w : Nat) (removed added : List Line) (bs : List Block) :
    onLast (firstLines radius) (change o w removed added :: bs) =
      change o w removed added :: onLast (firstLines radius) bs := by
  cases bs with
  | nil => rfl
  | cons b bs => exact onLast_cons _ _ (List.cons_ne_nil b bs)

theorem withinFrom_blocks (radius : Nat) : ∀ (bs : List Block) {before : List Mark}, isNear 1 before → Alternate bs →
    withinFrom radius before (bs.flatMap marks) = (onLast (firstLines radius) bs).flatMap (squeezed radius)
  | [], _, _, _ => rfl
  | change o w removed added :: bs, before, _, h => by
      have hrest := withinFrom_blocks radius bs (h.isNear before).2 h.of_cons
      rw [onLast_cons_change, List.flatMap_cons, List.flatMap_cons,
        withinFrom_changes fun _ => isChange_of_mem_change, hrest]
      rfl
  | [keep o w ls], before, hbefore, _ => by
      have hshort : ¬ 2 * radius < (ls.take radius).length := by
        rw [List.length_take]
        omega
      have hlast : onLast (firstLines radius) [keep o w ls] = [keep o w (ls.take radius)] := rfl
      rw [hlast, List.flatMap_singleton, List.flatMap_singleton, squeezed, if_neg hshort]
      exact withinFrom_last_keeps hbefore ls
  | keep o w ls :: change o' w' removed added :: bs, before, hbefore, h => by
      have hchange := h.of_cons
      have hrest := withinFrom_blocks radius bs (hchange.isNear (keeps ls.reverse ++ before)).2 hchange.of_cons
      rw [onLast_cons _ _ (List.cons_ne_nil _ bs), onLast_cons_change]
      simp only [List.flatMap_cons]
      rw [withinFrom_keep hbefore (hchange.isNear _).1, withinFrom_changes fun _ => isChange_of_mem_change, hrest]
      rfl
  | keep o w ls :: keep .. :: bs, _, _, h => absurd trivial (h.separate.rel trivial)

theorem length_le_of_mem_getLast? (hlast : keep o w ls ∈ (onLast (firstLines radius) bs).getLast?) :
    ls.length ≤ radius := by
  rcases List.eq_nil_or_concat' bs with rfl | ⟨front, last, rfl⟩
  · simp [onLast, onHead] at hlast
  · rw [onLast_append, List.getLast?_concat, Option.mem_some_iff] at hlast
    cases last with
    | keep o' w' ls' =>
        obtain ⟨-, -, rfl⟩ := Block.keep.inj hlast
        exact List.length_take_le ..
    | change => simp [firstLines] at hlast

/-- Unless there is but one kept block, the hunks that a cut makes hold each block, the inner ones squeezed. -/
theorem marks_cut (current bs : List Block) (hlast : ∀ o w ls, keep o w ls ∈ bs.getLast? → ls.length ≤ radius)
    (hne : ∀ o w ls, current ++ bs ≠ [keep o w ls]) :
    (cut radius current bs).flatten.flatMap marks = current.flatMap marks ++ bs.flatMap (squeezed radius) := by
  fun_induction cut radius current bs with
  | case1 => rfl
  | case2 o w ls => exact absurd rfl (hne o w ls)
  | case3 current => simp
  | case4 current bs o w ls hlong ih =>
      -- The block is not the last one, since that one is short.
      have hbs : bs ≠ [] := by
        rintro rfl
        have := hlast o w ls rfl
        omega
      have hrest := ih (fun o' w' ls' hmem => hlast o' w' ls' (by rwa [List.getLast?_cons_of_ne_nil hbs]))
        (fun o' w' ls' h => hbs (List.cons.inj h).2)
      rw [List.flatten_cons, List.flatMap_append, hrest]
      simp [squeezed, hlong, marks, firstLines, lastLines]
  | case5 current bs o w ls hshort ih =>
      have hrest := ih (fun o' w' ls' hmem => hlast o' w' ls' (List.mem_getLast?_cons hmem)) (by simpa using hne)
      simp [hrest, squeezed, hshort, marks]
  | case6 current bs o w removed added ih =>
      have hrest := ih (fun o' w' ls' hmem => hlast o' w' ls' (List.mem_getLast?_cons hmem)) (by simpa using hne)
      simp [hrest, squeezed]

theorem marks_cut_trimEnds (radius : Nat) (h : Alternate bs) :
    (cut radius [] (trimEnds radius bs)).flatten.flatMap marks = within radius (bs.flatMap marks) := by
  have hlast : ∀ o w ls, keep o w ls ∈ (trimEnds radius bs).getLast? → ls.length ≤ radius :=
    fun _ _ _ => length_le_of_mem_getLast?
  match bs with
  | [] => rfl
  | [keep o w ls] =>
      have hshort : ¬ 2 * radius < ((ls.drop (ls.length - radius)).take radius).length := by
        rw [List.length_take]
        omega
      rw [List.flatMap_singleton, marks, within_keeps]
      simp [trimEnds, onLast, onHead, lastLines, firstLines, cut, hshort, -List.length_take]
  | change o w removed added :: bs =>
      have hnear := withinFrom_blocks radius bs (h.isNear []).2 h.of_cons
      have htrim : trimEnds radius (change o w removed added :: bs) = _ :=
        onLast_cons_change radius o w removed added bs
      rw [htrim] at hlast ⊢
      rw [marks_cut [] _ hlast (by simp), List.flatMap_cons, ← hnear, within, List.flatMap_cons,
        withinFrom_changes fun _ => isChange_of_mem_change]
      rfl
  | keep o w ls :: change o' w' removed added :: bs =>
      have hchange := h.of_cons
      have hnear := withinFrom_blocks radius bs (hchange.isNear (keeps ls.reverse)).2 hchange.of_cons
      have hshort : ¬ 2 * radius < (ls.drop (ls.length - radius)).length := by
        rw [List.length_drop]
        omega
      have htrim : trimEnds radius (keep o w ls :: change o' w' removed added :: bs) = _ :=
        (onLast_cons _ _ (List.cons_ne_nil _ bs)).trans (congrArg _ (onLast_cons_change radius o' w' removed added bs))
      rw [htrim] at hlast ⊢
      rw [marks_cut [] _ hlast (by simp)]
      simp only [List.flatMap_cons, squeezed, lastLines, if_neg hshort, ← hnear]
      rw [marks, within_first_keeps (hchange.isNear _).1, withinFrom_changes fun _ => isChange_of_mem_change]
      rfl
  | keep o w ls :: keep .. :: bs => exact absurd trivial (h.separate.rel trivial)

end Hunks

end Block

end Inlay.Diff
