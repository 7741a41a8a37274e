import Inlay.Proofs.Listing

namespace Inlay.Disk

variable {part : Location → Bool} {d d' : Disk} {n k links : Nat} {here mid l : Location} {step path : Path}
  {steps rest more : List Path}

/-- What lies below the part is in it. -/
def IsClosed (part : Location → Bool) : Prop := ∀ l rest, part l = true → part (l ++ rest) = true

structure IsHiddenPart (part : Location → Bool) : Prop where
  below : ∀ l rest, part l = true → part (l ++ rest) = true
  hidden : ∀ l name, part l = false → part (l ++ [name]) = true → Path.isHidden name = true

def hiddenBelow (directory l : Location) : Bool :=
  directory.isPrefixOf l && (l.drop directory.length).any Path.isHidden

theorem hiddenBelow_iff {directory l : Location} : hiddenBelow directory l = true ↔
    ∃ below, l = directory ++ below ∧ ∃ name ∈ below, Path.isHidden name = true := by
  rw [hiddenBelow, Bool.and_eq_true, List.isPrefixOf_iff_prefix, List.any_eq_true]
  constructor
  · rintro ⟨⟨below, rfl⟩, hany⟩
    rw [List.drop_left] at hany
    exact ⟨below, rfl, hany⟩
  · rintro ⟨below, rfl, hany⟩
    refine ⟨List.prefix_append _ _, ?_⟩
    rwa [List.drop_left]

theorem isHiddenPart_hiddenBelow (directory : Location) : IsHiddenPart (hiddenBelow directory) := by
  constructor
  · intro l rest hl
    obtain ⟨below, rfl, hidden, hmem, hhidden⟩ := hiddenBelow_iff.1 hl
    refine hiddenBelow_iff.2 ⟨below ++ rest, List.append_assoc _ _ _, hidden, ?_, hhidden⟩
    exact List.mem_append_left _ hmem
  · intro l name hl hname
    obtain ⟨below, heq, hidden, hmem, hhidden⟩ := hiddenBelow_iff.1 hname
    rcases List.eq_nil_or_concat below with rfl | ⟨init, last, rfl⟩
    · cases hmem
    · rw [List.concat_eq_append] at heq hmem
      rw [← List.append_assoc] at heq
      obtain ⟨rfl, hlast⟩ := List.append_inj' heq rfl
      obtain rfl := List.head_eq_of_cons_eq hlast
      rcases List.mem_append.1 hmem with hmem | hmem
      · rw [hiddenBelow_iff.2 ⟨init, rfl, hidden, hmem, hhidden⟩] at hl
        cases hl
      · obtain rfl := List.mem_singleton.1 hmem
        exact hhidden

/-- Following the steps looks up the entry at `l`. -/
inductive Passes (d : Disk) (l : Location) : Location → List Path → Prop
  | look {here : Location} {step : Path} {rest : List Path} (hdir : d.Admits here step) (hstep : IsName step)
      (hl : here ++ [step] = l) : Passes d l here (step :: rest)
  | on {here mid : Location} {step : Path} {rest more : List Path} {k : Nat} (hdir : d.Admits here step)
      (hmove : Move d here step k mid more) (h : Passes d l mid (more ++ rest)) : Passes d l here (step :: rest)

/-- Following the steps keeps out of the part. -/
def Avoids (d : Disk) (part : Location → Bool) (here : Location) (steps : List Path) : Prop :=
  part here = false ∧ ∀ l, Passes d l here steps → part l = false

/-- The disks are the same apart from the part. -/
structure SameApart (part : Location → Bool) (d d' : Disk) : Prop where
  isClosed : IsClosed part
  entry : ∀ l, part l = false → d'.entry? l = d.entry? l
  working : d'.workingDirectory = d.workingDirectory
  privileged : d'.privileged = d.privileged

/-- The disks are the same outside of the part, and no link there leads to or through the part. -/
structure SameOutside (part : Location → Bool) (d d' : Disk) : Prop where
  isHiddenPart : IsHiddenPart part
  entry : ∀ l, part l = false → d'.entry? l = d.entry? l
  working : d'.workingDirectory = d.workingDirectory
  privileged : d'.privileged = d.privileged
  link : ∀ here name target, part (here ++ [name]) = false → d.entry? (here ++ [name]) = some (.link target) →
    d.Avoids part (linkStart here target) (Path.steps target)

namespace IsClosed

theorem of_append (h : IsClosed part) (hl : part (l ++ rest) = false) : part l = false := by
  by_contra hpart
  rw [h l rest (by simpa using hpart)] at hl
  cases hl

theorem dropLast (h : IsClosed part) (hl : part l = false) : part l.dropLast = false := by
  rcases List.eq_nil_or_concat l with rfl | ⟨init, name, rfl⟩
  · exact hl
  · rw [List.concat_eq_append] at hl ⊢
    rw [List.dropLast_concat]
    exact h.of_append hl

theorem root (h : IsClosed part) (hl : part l = false) : part [] = false := by
  rw [← List.nil_append l] at hl
  exact h.of_append hl

end IsClosed

namespace Avoids

theorem move (hpart : IsClosed part) (h : d.Avoids part here (step :: rest)) (hdir : d.Admits here step)
    (hmove : Move d here step k mid more) : d.Avoids part mid (more ++ rest) := by
  refine ⟨?_, fun l hl => h.2 l (.on hdir hmove hl)⟩
  cases hmove with
  | stay => exact h.1
  | up => exact hpart.dropLast h.1
  | enter hstep => exact h.2 _ (.look hdir hstep rfl)
  | through =>
      unfold linkStart
      split
      · exact hpart.root h.1
      · exact h.1

theorem of_leads (hpart : IsClosed part) (h : d.Avoids part here steps) (hl : Leads d n here steps l) :
    part l = false := by
  induction hl with
  | here => exact h.1
  | step hdir hmove _ ih => exact ih (h.move hpart hdir hmove)

theorem after (hpart : IsClosed part) (h : d.Avoids part here (steps ++ rest)) (hl : Leads d n here steps mid) :
    d.Avoids part mid rest := by
  induction hl with
  | here => exact h
  | step hdir hmove _ ih => exact ih (by simpa [List.append_assoc] using h.move hpart hdir hmove)

theorem of_append (h : d.Avoids part here (steps ++ rest)) : d.Avoids part here steps := by
  refine ⟨h.1, fun l hl => h.2 l ?_⟩
  clear h
  induction hl with
  | look hdir hstep hl => exact .look hdir hstep hl
  | on hdir hmove _ ih => exact .on hdir hmove (by rwa [List.append_assoc] at ih)

theorem append (hpart : IsClosed part) (h : d.Avoids part here steps)
    (hrest : ∀ n mid, Leads d n here steps mid → d.Avoids part mid rest) : d.Avoids part here (steps ++ rest) := by
  refine ⟨h.1, fun l hl => ?_⟩
  generalize hall : steps ++ rest = all at hl
  induction hl generalizing steps with
  | @look here step more hdir hstep hl =>
      cases steps with
      | nil =>
          obtain rfl : rest = step :: more := hall
          exact (hrest 0 here (.here here)).2 _ (.look hdir hstep hl)
      | cons _ steps =>
          obtain ⟨rfl, -⟩ := List.cons.inj hall
          exact h.2 _ (.look hdir hstep hl)
  | @on here mid step later more k hdir hmove hl ih =>
      cases steps with
      | nil =>
          obtain rfl : rest = step :: later := hall
          exact (hrest 0 here (.here here)).2 _ (.on hdir hmove hl)
      | cons _ steps =>
          obtain ⟨rfl, rfl⟩ := List.cons.inj hall
          exact ih (h.move hpart hdir hmove) (fun n mid hmid => hrest _ mid (.step hdir hmove hmid))
            (List.append_assoc more steps rest)

end Avoids

theorem Move.unique {k' : Nat} {mid' : Location} {more' : List Path} (h : Move d here step k mid more)
    (h' : Move d here step k' mid' more') : k = k' ∧ mid = mid' ∧ more = more' := by
  cases h with
  | stay hstep =>
      cases h' with
      | stay => exact ⟨rfl, rfl, rfl⟩
      | up => exact absurd hstep (by decide)
      | enter hname | through hname => exact absurd hstep hname.not_stays
  | up =>
      generalize hstep : Path.above = step' at h'
      cases h' with
      | stay hstays => exact absurd (hstep ▸ hstays) (by decide)
      | up => exact ⟨rfl, rfl, rfl⟩
      | enter hname | through hname => exact absurd hstep.symm hname.2.1
  | enter hname he hlink =>
      cases h' with
      | stay hstep => exact absurd hstep hname.not_stays
      | up => exact absurd rfl hname.2.1
      | enter => exact ⟨rfl, rfl, rfl⟩
      | through _ he' => exact absurd (Option.some.inj (he.symm.trans he')) (hlink _)
  | through hname he =>
      cases h' with
      | stay hstep => exact absurd hstep hname.not_stays
      | up => exact absurd rfl hname.2.1
      | enter _ he' hlink => exact absurd (Option.some.inj (he'.symm.trans he)) (hlink _)
      | through _ he' =>
          cases he.symm.trans he'
          exact ⟨rfl, rfl, rfl⟩

theorem Move.exists_entry (h : Move d here step k mid more) (hstep : IsName step) :
    ∃ e, d.entry? (here ++ [step]) = some e := by
  cases h with
  | stay hstays => exact absurd hstays hstep.not_stays
  | up => exact absurd rfl hstep.2.1
  | enter _ he | through _ he => exact ⟨_, he⟩

theorem Move.put (h : Move d here step k mid more) (hl : IsName step → here ++ [step] ≠ l) (e : Entry) :
    Move (d.put l e) here step k mid more := by
  cases h with
  | stay hstep => exact .stay hstep
  | up => exact .up
  | enter hstep he hlink => exact .enter hstep ((entry?_put_of_ne e (hl hstep)).trans he) hlink
  | through hstep he htarget => exact .through hstep ((entry?_put_of_ne e (hl hstep)).trans he) htarget

theorem isDirectoryAt_put_file (hl : d.isDirectoryAt l = false) (mode : Nat) (content : Bytes) (l' : Location) :
    (d.put l (.file mode content)).isDirectoryAt l' = d.isDirectoryAt l' := by
  by_cases h : l' = l
  · have hne : l ≠ [] := by
      rintro rfl
      cases hl
    rw [h, hl, isDirectoryAt, entry?_put_self hne]
    rfl
  · exact isDirectoryAt_put_of_ne _ h

theorem Admits.put (h : d.Admits here step) (hl : d.isDirectoryAt l = false) (e : Entry) :
    (d.put l e).Admits here step := by
  refine h.put_of_ne e ?_
  rintro rfl
  exact absurd h.1 (by simp [hl])

namespace Leads

theorem not_passes (h : Leads d n here steps mid) (hl : d.entry? l = none) : ¬Passes d l here steps := by
  induction h with
  | here => exact nofun
  | step hdir hmove _ ih =>
      intro hpasses
      cases hpasses with
      | look _ hstep heq =>
          obtain ⟨e, he⟩ := hmove.exists_entry hstep
          rw [heq, hl] at he
          cases he
      | on _ hmove' hrest =>
          obtain ⟨rfl, rfl, rfl⟩ := hmove.unique hmove'
          exact ih hrest

theorem put {mode : Nat} {content : Bytes} (h : Leads d n here steps mid) (hl : d.isDirectoryAt l = false)
    (hpasses : ¬Passes d l here steps) : Leads (d.put l (.file mode content)) n here steps mid := by
  induction h with
  | here => exact .here _
  | step hdir hmove _ ih =>
      have hmove' := hmove.put (fun hstep heq => hpasses (.look hdir hstep heq)) (.file mode content)
      exact .step (hdir.put hl _) hmove' (ih fun hrest => hpasses (.on hdir hmove hrest))

end Leads

namespace SameApart

theorem isDirectoryAt (h : SameApart part d d') (hl : part l = false) : d'.isDirectoryAt l = d.isDirectoryAt l := by
  rw [Disk.isDirectoryAt, h.entry l hl, Disk.isDirectoryAt]

theorem grants (h : SameApart part d d') : d'.grants = d.grants := by
  funext r e
  rw [Disk.grants, h.privileged, Disk.grants]

theorem grantsAt (h : SameApart part d d') (r : Right) (hl : part l = false) : d'.grantsAt r l = d.grantsAt r l := by
  rw [Disk.grantsAt, h.entry l hl, h.grants, Disk.grantsAt]

theorem admits (h : SameApart part d d') (hl : part l = false) : d'.Admits l step ↔ d.Admits l step := by
  rw [Admits, h.isDirectoryAt hl, h.grantsAt .search hl, Admits]

/-- What is looked up on a way that keeps out of the part is the same. -/
theorem entry_of_avoids (h : SameApart part d d') {rest : List Path} (havoids : d.Avoids part here (step :: rest))
    (hdir : d.Admits here step) (hstep : IsName step) : d'.entry? (here ++ [step]) = d.entry? (here ++ [step]) :=
  h.entry _ (havoids.2 _ (.look hdir hstep rfl))

theorem move (h : SameApart part d d') {rest : List Path} (havoids : d.Avoids part here (step :: rest))
    (hdir : d.Admits here step) (hmove : Move d here step k mid more) : Move d' here step k mid more := by
  cases hmove with
  | stay hstep => exact .stay hstep
  | up => exact .up
  | enter hstep he hlink => exact .enter hstep ((h.entry_of_avoids havoids hdir hstep).trans he) hlink
  | through hstep he htarget => exact .through hstep ((h.entry_of_avoids havoids hdir hstep).trans he) htarget

theorem stops (h : SameApart part d d') {rest : List Path} (havoids : d.Avoids part here (step :: rest))
    {links : Nat} {cause : IoError} (hstop : Stops d links here step cause) : Stops d' links here step cause := by
  have hadmits (hdir : d.Admits here step) : d'.Admits here step := (h.admits havoids.1).2 hdir
  have hentry {e : Option Entry} (hdir : d.Admits here step) (hstep : IsName step) (he : d.entry? (here ++ [step]) = e) :
      d'.entry? (here ++ [step]) = e := (h.entry_of_avoids havoids hdir hstep).trans he
  cases hstop with
  | notDirectory hdir => exact .notDirectory ((h.isDirectoryAt havoids.1).trans hdir)
  | notPermitted hdir hstep hsearch =>
      exact .notPermitted ((h.isDirectoryAt havoids.1).trans hdir) hstep ((h.grantsAt .search havoids.1).trans hsearch)
  | nameTooLong hdir hstep => exact .nameTooLong (hadmits hdir) hstep
  | missing hdir hstep he => exact .missing (hadmits hdir) hstep (hentry hdir hstep he)
  | nowhere hdir hstep he hlinks => exact .nowhere (hadmits hdir) hstep (hentry hdir hstep he) hlinks
  | tooManyLinks hdir hstep he hlinks => exact .tooManyLinks (hadmits hdir) hstep (hentry hdir hstep he) hlinks

theorem follow (h : SameApart part d d') (havoids : d.Avoids part here steps) (links : Nat) :
    d'.follow links here steps = d.follow links here steps := by
  induction links, here, steps using follow_induction (d := d) with
  | nil links here => rw [Disk.follow, Disk.follow]
  | move hdir hmove ih =>
      rw [hmove.follow_eq hdir, (h.move havoids hdir hmove).follow_eq ((h.admits havoids.1).2 hdir)]
      exact ih (havoids.move h.isClosed hdir hmove)
  | stop rest hstop => rw [hstop.follow_eq, (h.stops havoids hstop).follow_eq]

theorem locate (h : SameApart part d d') (havoids : d.Avoids part (d.start path) (Path.steps path)) :
    d'.locate path = d.locate path := by
  have hstart : d'.start path = d.start path := by rw [start, h.working, start]
  rw [Disk.locate, Disk.locate, hstart, h.follow havoids]

theorem place (h : SameApart part d d') (havoids : d.Avoids part (d.start path) (Path.steps path)) :
    d'.place path = d.place path := by
  have hstart : d'.start path = d.start path := by rw [start, h.working, start]
  rw [Disk.place, Disk.place, hstart]
  rcases List.eq_nil_or_concat (Path.names path) with hnil | ⟨init, name, hconcat⟩
  · rw [hnil]
    rfl
  · rw [List.concat_eq_append] at hconcat
    rw [Path.steps, hconcat, List.append_assoc] at havoids
    rw [hconcat, List.dropLast_concat, h.follow havoids.of_append]
    cases hdir : d.follow maxLinks (d.start path) init with
    | error cause => rfl
    | ok dir =>
        obtain ⟨n, -, hinit⟩ := Leads.of_follow hdir
        have houtside := havoids.of_append.of_leads h.isClosed hinit
        simp only [bind, Except.bind, h.isDirectoryAt houtside, h.grantsAt .search houtside]

theorem isLink (h : SameApart part d d') (havoids : d.Avoids part (d.start path) (Path.steps path))
    (hl : d.locate path = .ok l) : d'.isLink path = d.isLink path := by
  rw [Disk.isLink, Disk.isLink, h.place havoids]
  cases hplace : d.place path with
  | error cause => rfl
  | ok l' =>
      obtain ⟨init, name, dir, rfl, hnames⟩ := exists_names hl hplace
      obtain ⟨n, k, target, -, hinit, -⟩ := hnames.leads
      rw [hnames.steps] at havoids
      dsimp only
      rw [h.entry _ ((havoids.after h.isClosed hinit).2 _ (.look hnames.admits hnames.isName rfl))]

end SameApart

theorem SameOutside.sameApart (h : SameOutside part d d') : SameApart part d d' :=
  ⟨h.isHiddenPart.below, h.entry, h.working, h.privileged⟩

end Inlay.Disk
