import Inlay.Package
import Mathlib.Data.Nat.Basic

namespace Inlay.Disk

def IsName (step : Path) : Prop :=
  step ≠ Path.here ∧ step ≠ Path.above ∧ step.length ≤ maxNameBytes ∧ step ≠ []

instance (step : Path) : Decidable (IsName step) := inferInstanceAs (Decidable (_ ∧ _ ∧ _ ∧ _))

theorem IsName.not_stays {step : Path} (h : IsName step) : ¬(step = Path.here ∨ step = []) := by
  rintro (rfl | rfl)
  · exact h.1 rfl
  · exact h.2.2.2 rfl

/-- A step can be made from there. The one behind a slash at the end takes no right to search. -/
def Admits (d : Disk) (here : Location) (step : Path) : Prop :=
  d.isDirectoryAt here ∧ (step ≠ [] → d.grantsAt .search here)

instance (d : Disk) (here : Location) (step : Path) : Decidable (d.Admits here step) :=
  inferInstanceAs (Decidable (_ ∧ (_ → _)))

def linkStart (here : Location) (target : Path) : Location := if Path.isAbsolute target then [] else here

/-- One step from a directory: how many links it meets, where it leads, and the steps that are still
to be made for it. -/
inductive Move (d : Disk) (here : Location) : Path → Nat → Location → List Path → Prop
  | stay {step : Path} (hstep : step = Path.here ∨ step = []) : Move d here step 0 here []
  | up : Move d here Path.above 0 here.dropLast []
  | enter {step : Path} {e : Entry} (hstep : IsName step) (he : d.entry? (here ++ [step]) = some e)
      (hlink : ∀ target, e ≠ .link target) : Move d here step 0 (here ++ [step]) []
  | through {step target : Path} (hstep : IsName step) (he : d.entry? (here ++ [step]) = some (.link target))
      (htarget : target ≠ []) : Move d here step 1 (linkStart here target) (Path.steps target)

/-- The steps lead from one location to the other, over that many links. -/
inductive Leads (d : Disk) : Nat → Location → List Path → Location → Prop
  | here (l : Location) : Leads d 0 l [] l
  | step {k n : Nat} {here mid l : Location} {step : Path} {more rest : List Path}
      (hdir : d.Admits here step) (hmove : Move d here step k mid more) (h : Leads d n mid (more ++ rest) l) :
      Leads d (k + n) here (step :: rest) l

variable {d : Disk} {k n m links : Nat} {here mid l : Location} {more steps : List Path}

theorem Admits.of_search (hdir : d.isDirectoryAt here) (hsearch : d.grantsAt .search here) (step : Path) :
    d.Admits here step := ⟨hdir, fun _ => hsearch⟩

theorem admits_root (d : Disk) (step : Path) : d.Admits [] step := by
  have hsearch : d.grantsAt .search [] = true := by simp [grantsAt, entry?, grants, Entry.mode?, Entry.defaultDirectoryMode, Right.bit]
  exact .of_search rfl hsearch step

theorem Move.follow_eq {step : Path} (h : Move d here step k mid more) (hdir : d.Admits here step)
    (links : Nat) (rest : List Path) :
    d.follow (k + links) here (step :: rest) = d.follow links mid (more ++ rest) := by
  obtain ⟨hdir, hsearch⟩ := hdir
  rw [follow]
  cases h with
  | stay hstep =>
      rcases hstep with rfl | rfl
      · simp [hdir, hsearch (by decide)]
      · simp [hdir]
  | up => simp [hdir, hsearch (by decide), show Path.above ≠ [] by decide, show Path.above ≠ Path.here by decide]
  | enter hstep he hlink =>
      obtain ⟨hdot, hdots, hsize, hne⟩ := hstep
      simp only [hdir, hsearch hne, hne, hdot, hdots, he, Nat.not_lt.2 hsize, if_false, Bool.not_true,
        Bool.false_eq_true, Nat.zero_add, List.nil_append]
  | through hstep he htarget =>
      obtain ⟨hdot, hdots, hsize, hne⟩ := hstep
      simp only [hdir, hsearch hne, hne, hdot, hdots, he, Nat.not_lt.2 hsize, htarget, if_false, Bool.not_true,
        Bool.false_eq_true, Nat.add_comm 1 links]
      rfl

/-- Why a step cannot be made, with that many links left. -/
inductive Stops (d : Disk) (links : Nat) (here : Location) (step : Path) : IoError → Prop
  | notDirectory (hdir : d.isDirectoryAt here = false) : Stops d links here step .notDirectory
  | notPermitted (hdir : d.isDirectoryAt here) (hstep : step ≠ []) (hsearch : d.grantsAt .search here = false) :
      Stops d links here step .notPermitted
  | nameTooLong (hdir : d.Admits here step) (hstep : maxNameBytes < step.length) : Stops d links here step .nameTooLong
  | missing (hdir : d.Admits here step) (hstep : IsName step) (he : d.entry? (here ++ [step]) = none) :
      Stops d links here step .noEntry
  | nowhere (hdir : d.Admits here step) (hstep : IsName step) (he : d.entry? (here ++ [step]) = some (.link []))
      (hlinks : links ≠ 0) : Stops d links here step .noEntry
  | tooManyLinks {target : Path} (hdir : d.Admits here step) (hstep : IsName step)
      (he : d.entry? (here ++ [step]) = some (.link target)) (hlinks : links = 0) : Stops d links here step .tooManyLinks

theorem Stops.follow_eq {step : Path} {cause : IoError} (h : Stops d links here step cause) (rest : List Path) :
    d.follow links here (step :: rest) = .error cause := by
  have hname {step : Path} (hstep : IsName step) : ¬maxNameBytes < step.length := Nat.not_lt.2 hstep.2.2.1
  rw [follow]
  cases h with
  | notDirectory hdir => simp [hdir]
  | notPermitted hdir hstep hsearch => simp [hdir, hstep, hsearch]
  | nameTooLong hdir hstep =>
      have hne : step ≠ [] ∧ step ≠ Path.here ∧ step ≠ Path.above := by
        refine ⟨?_, ?_, ?_⟩ <;> rintro rfl <;> exact absurd hstep (by decide)
      simp [hdir.1, hdir.2 hne.1, hne, hstep]
  | missing hdir hstep he =>
      simp [hdir.1, hdir.2 hstep.2.2.2, hstep.1, hstep.2.1, hstep.2.2.2, hname hstep, he]
  | nowhere hdir hstep he hlinks =>
      obtain ⟨links, rfl⟩ := Nat.exists_eq_succ_of_ne_zero hlinks
      simp [hdir.1, hdir.2 hstep.2.2.2, hstep.1, hstep.2.1, hstep.2.2.2, hname hstep, he]
  | tooManyLinks hdir hstep he hlinks =>
      subst hlinks
      simp [hdir.1, hdir.2 hstep.2.2.2, hstep.1, hstep.2.1, hstep.2.2.2, hname hstep, he]

/-- The way of a path: at its end nothing is left of it, or there is a step that cannot be made. -/
@[elab_as_elim]
theorem follow_induction {motive : Nat → Location → List Path → Prop}
    (nil : ∀ links here, motive links here [])
    (move : ∀ {links here k mid step more rest}, d.Admits here step → Move d here step k mid more →
      motive links mid (more ++ rest) → motive (k + links) here (step :: rest))
    (stop : ∀ {links here step cause} rest, Stops d links here step cause → motive links here (step :: rest))
    (links : Nat) (here : Location) (steps : List Path) : motive links here steps := by
  have hadmits {here : Location} (hyes : ¬(!d.isDirectoryAt here) = true) (hsearch : ¬(!d.grantsAt .search here) = true)
      (step : Path) : d.Admits here step := .of_search (by simpa using hyes) (by simpa using hsearch) step
  have hstays {links : Nat} {here mid : Location} {step : Path} {more rest : List Path} (hdir : d.Admits here step)
      (hmove : Move d here step 0 mid more) (h : motive links mid (more ++ rest)) : motive links here (step :: rest) := by
    have := move hdir hmove h
    rwa [Nat.zero_add] at this
  fun_induction d.follow links here steps with
  | case1 links here => exact nil links here
  | case2 links here step rest hno => exact stop rest (.notDirectory (by simpa using hno))
  | case3 links here rest hyes ih => exact hstays ⟨by simpa using hyes, absurd rfl⟩ (.stay (.inr rfl)) ih
  | case4 links here step rest hyes hne hno =>
      exact stop rest (.notPermitted (by simpa using hyes) hne (by simpa using hno))
  | case5 links here rest hyes hsearch _ ih => exact hstays (hadmits hyes hsearch _) (.stay (.inl rfl)) ih
  | case6 links here rest hyes hsearch _ _ ih => exact hstays (hadmits hyes hsearch _) .up ih
  | case7 links here step rest hyes _ hsearch _ _ hlong => exact stop rest (.nameTooLong (hadmits hyes hsearch _) hlong)
  | case8 links here step rest hyes hne hsearch hdot hdots hsize he =>
      exact stop rest (.missing (hadmits hyes hsearch _) ⟨hdot, hdots, Nat.not_lt.1 hsize, hne⟩ he)
  | case9 here step rest hyes hne hsearch hdot hdots hsize target he =>
      exact stop rest (.tooManyLinks (hadmits hyes hsearch _) ⟨hdot, hdots, Nat.not_lt.1 hsize, hne⟩ he rfl)
  | case10 here step rest hyes hne hsearch hdot hdots hsize links he =>
      exact stop rest (.nowhere (hadmits hyes hsearch _) ⟨hdot, hdots, Nat.not_lt.1 hsize, hne⟩ he (Nat.succ_ne_zero _))
  | case11 here step rest hyes hne hsearch hdot hdots hsize target he links htarget ih =>
      rw [Nat.succ_eq_one_add]
      exact move (hadmits hyes hsearch _) (.through ⟨hdot, hdots, Nat.not_lt.1 hsize, hne⟩ he htarget) ih
  | case12 links here step rest hyes hne hsearch hdot hdots hsize e hlink he ih =>
      exact hstays (hadmits hyes hsearch _) (.enter ⟨hdot, hdots, Nat.not_lt.1 hsize, hne⟩ he hlink) ih

namespace Leads

theorem follow_append (h : Leads d n here steps l) (links : Nat) (rest : List Path) :
    d.follow (n + links) here (steps ++ rest) = d.follow links l rest := by
  induction h with
  | here l => rw [Nat.zero_add, List.nil_append]
  | @step k n _ _ _ _ _ _ hdir hmove _ ih => rw [List.cons_append, Nat.add_assoc, hmove.follow_eq hdir, ← List.append_assoc, ih]

theorem follow_eq (h : Leads d n here steps l) (hn : n ≤ links) : d.follow links here steps = .ok l := by
  obtain ⟨links, rfl⟩ := Nat.exists_eq_add_of_le hn
  have hfollow := h.follow_append links []
  rwa [List.append_nil, follow] at hfollow

theorem follow_of_lt (h : Leads d n here steps l) (hn : links < n) (rest : List Path) :
    d.follow links here (steps ++ rest) = .error .tooManyLinks := by
  induction h generalizing links with
  | here => exact absurd hn (Nat.not_lt_zero _)
  | @step k n _ _ _ _ _ _ hdir hmove _ ih =>
      rw [List.cons_append]
      by_cases hk : k ≤ links
      · obtain ⟨left, rfl⟩ := Nat.exists_eq_add_of_le hk
        rw [hmove.follow_eq hdir, ← List.append_assoc]
        exact ih (by omega)
      · cases hmove with
        | stay | up | enter => exact absurd (Nat.zero_le _) hk
        | through hstep he =>
            obtain ⟨hdot, hdots, hsize, hne⟩ := hstep
            obtain rfl : links = 0 := by omega
            simp only [follow, hdir.1, hdir.2 hne, hne, hdot, hdots, he, Nat.not_lt.2 hsize, if_false, Bool.not_true,
              Bool.false_eq_true]

theorem of_follow (h : d.follow links here steps = .ok l) : ∃ n, n ≤ links ∧ Leads d n here steps l := by
  induction links, here, steps using follow_induction (d := d) with
  | nil links here =>
      rw [follow] at h
      cases h
      exact ⟨0, Nat.zero_le _, .here _⟩
  | move hdir hmove ih =>
      rw [hmove.follow_eq hdir] at h
      obtain ⟨n, hn, h⟩ := ih h
      exact ⟨_, Nat.add_le_add_left hn _, .step hdir hmove h⟩
  | stop rest hstop =>
      rw [hstop.follow_eq] at h
      cases h

theorem unique {l' : Location} (h : Leads d n here steps l) (h' : Leads d m here steps l') : l = l' := by
  have heq := h.follow_eq (Nat.le_max_left n m)
  rw [h'.follow_eq (Nat.le_max_right n m)] at heq
  cases heq
  rfl

theorem of_move {step : Path} (hdir : d.Admits here step) (h : Move d here step k mid []) :
    Leads d k here [step] mid :=
  .step hdir h (.here mid)

theorem append {rest : List Path} (h : Leads d n here steps mid) (h' : Leads d m mid rest l) :
    Leads d (n + m) here (steps ++ rest) l := by
  induction h with
  | here => simpa using h'
  | step hdir hmove _ ih =>
      rw [Nat.add_assoc]
      refine .step hdir hmove ?_
      simpa [List.append_assoc] using ih h'

theorem of_append {rest : List Path} (h : Leads d n here (steps ++ rest) l) :
    ∃ a b mid, a + b = n ∧ Leads d a here steps mid ∧ Leads d b mid rest l := by
  generalize hall : steps ++ rest = all at h
  induction h generalizing steps with
  | here l =>
      obtain ⟨rfl, rfl⟩ := List.append_eq_nil_iff.1 hall
      exact ⟨0, 0, l, rfl, .here l, .here l⟩
  | @step k n here mid l step more _ hdir hmove h ih =>
      cases steps with
      | nil =>
          subst hall
          exact ⟨0, k + n, here, Nat.zero_add _, .here here, .step hdir hmove h⟩
      | cons _ steps =>
          obtain ⟨rfl, rfl⟩ := List.cons.inj hall
          obtain ⟨a, b, mid', rfl, hfirst, hrest⟩ := ih (List.append_assoc more steps rest)
          exact ⟨k + a, b, mid', Nat.add_assoc k a b, .step hdir hmove hfirst, hrest⟩

theorem of_cons {step : Path} (h : Leads d n here (step :: steps) l) :
    ∃ a b mid, a + b = n ∧ Leads d a here [step] mid ∧ Leads d b mid steps l :=
  of_append (by rwa [List.singleton_append])

theorem eq_of_not_isDirectoryAt (h : Leads d n here steps l) (hdir : d.isDirectoryAt here = false) :
    steps = [] ∧ l = here := by
  cases h with
  | here => exact ⟨rfl, rfl⟩
  | step h =>
      rw [h.1] at hdir
      cases hdir

end Leads

end Inlay.Disk
