import Inlay.Proofs.Outside

namespace Inlay.Disk

variable {part : Location → Bool} {area : Location → Prop} {d d' : Disk} {here l : Location} {path name : Path}
  {extension : String} {stack : List Standing} {stops stops' : WalkError → Prop}

/-- What the walk lists of an entry of the directory at `here`. -/
def visitEntry (d : Disk) (extension : String) (stack : List Standing) (path : Path) (here : Location)
    (c : Path × Entry) : Except WalkError (List Path) :=
  match d.meet stack here (Path.join path c.1) c.1 c.2 with
  | .error fault => .error fault
  | .ok found =>
    if Path.isHidden c.1 then .ok []
    else
      match found with
      | .file =>
        .ok (if Path.extension? (Path.join path c.1) = some (Text.encode extension) then [Path.join path c.1] else [])
      | .other => .ok []
      | .directory l => d.visit extension (⟨Path.join path c.1, l⟩ :: stack) (Path.join path c.1) l

theorem visitEntry_of_meet_error {c : Path × Entry} {fault : WalkError}
    (h : d.meet stack here (Path.join path c.1) c.1 c.2 = .error fault) :
    d.visitEntry extension stack path here c = .error fault := by
  rw [visitEntry, h]

theorem visit_eq (d : Disk) (extension : String) (stack : List Standing) (path : Path) (here : Location) :
    d.visit extension stack path here =
      match d.readDirectory path with
      | .error fault => .error fault
      | .ok _ => ((d.children here).mapM (d.visitEntry extension stack path here)).map List.flatten := by
  rw [visit]
  cases d.readDirectory path with
  | error fault => rfl
  | ok l =>
      dsimp only [bind, Except.bind]
      rw [List.mapM_subtype (g := d.visitEntry extension stack path here), List.unattach_attach]
      · cases (d.children here).mapM (d.visitEntry extension stack path here) <;> rfl
      · intro c hc
        unfold visitEntry
        split
        · next hm => rw [hm]
        · next found hm =>
            conv => rhs; rw [hm]
            cases Path.isHidden c.1 with
            | true => rfl
            | false => cases found <;> rfl

/-- The results are the same, unless one of them is a fault that stops its walk. -/
def Agree {α : Type} (stops stops' : WalkError → Prop) (r r' : Except WalkError α) : Prop :=
  r' = r ∨ (∃ fault, r = .error fault ∧ stops fault) ∨ ∃ fault, r' = .error fault ∧ stops' fault

namespace Agree

variable {α β : Type}

theorem refl (r : Except WalkError α) : Agree stops stops' r r := .inl rfl

theorem map {r r' : Except WalkError α} (h : Agree stops stops' r r') (f : α → β) :
    Agree stops stops' (r.map f) (r'.map f) := by
  obtain rfl | ⟨fault, rfl, hstops⟩ | ⟨fault, rfl, hstops⟩ := h
  · exact .refl _
  · exact .inr (.inl ⟨fault, rfl, hstops⟩)
  · exact .inr (.inr ⟨fault, rfl, hstops⟩)

theorem mapM {f f' : α → Except WalkError β} {as : List α} (h : ∀ a ∈ as, Agree stops stops' (f a) (f' a)) :
    Agree stops stops' (as.mapM f) (as.mapM f') := by
  induction as with
  | nil => exact .refl _
  | cons a as ih =>
      rw [List.mapM_cons, List.mapM_cons]
      obtain heq | ⟨fault, hfault, hstops⟩ | ⟨fault, hfault, hstops⟩ := h a List.mem_cons_self
      · rw [heq]
        cases f a with
        | error fault => exact .refl _
        | ok b => exact (ih fun a ha => h a (List.mem_cons_of_mem _ ha)).map (b :: ·)
      · rw [hfault]
        exact .inr (.inl ⟨fault, rfl, hstops⟩)
      · rw [hfault]
        exact .inr (.inr ⟨fault, rfl, hstops⟩)

end Agree

/-- Entries that are listed as nothing can be left out, unless one of them stops the walk. -/
theorem mapM_filter {α β : Type} {f : α → Except WalkError (List β)} {keep : α → Bool} {as : List α} (h : ∀ a ∈ as, keep a = false → f a = .ok [] ∨ ∃ fault, f a = .error fault ∧ stops fault) :
    (as.mapM f).map List.flatten = ((as.filter keep).mapM f).map List.flatten ∨
      ∃ fault, as.mapM f = .error fault ∧ stops fault := by
  induction as with
  | nil => exact .inl rfl
  | cons a as ih =>
      have ih := ih fun b hb => h b (List.mem_cons_of_mem _ hb)
      rw [List.mapM_cons]
      cases hkeep : keep a with
      | false =>
          rw [List.filter_cons_of_neg (by simp [hkeep])]
          obtain hnil | ⟨fault, hfault, hstops⟩ := h a List.mem_cons_self hkeep
          · rw [hnil]
            obtain heq | ⟨fault, hfault, hstops⟩ := ih
            · rw [← heq]
              cases as.mapM f <;> exact .inl rfl
            · rw [hfault]
              exact .inr ⟨fault, rfl, hstops⟩
          · rw [hfault]
            exact .inr ⟨fault, rfl, hstops⟩
      | true =>
          rw [List.filter_cons_of_pos hkeep, List.mapM_cons]
          cases f a with
          | error fault => exact .inl rfl
          | ok b =>
              obtain heq | ⟨fault, hfault, hstops⟩ := ih
              · have hcons (r : Except WalkError (List (List β))) :
                    (r >>= fun bs => pure (b :: bs)).map List.flatten = (r.map List.flatten).map (b ++ ·) := by
                  cases r <;> rfl
                exact .inl ((hcons _).trans ((congrArg _ heq).trans (hcons _).symm))
              · rw [hfault]
                exact .inr ⟨fault, rfl, hstops⟩

/-- The path keeps out of the part. -/
def Misses (d : Disk) (part : Location → Bool) (path : Path) : Prop :=
  d.Avoids part (d.start path) (Path.steps path)

theorem Misses.outside (h : d.Misses part path) (hpart : IsClosed part) (hl : d.locate path = .ok l) :
    part l = false := by
  obtain ⟨-, n, -, hleads⟩ := locate_eq_ok.1 hl
  exact h.of_leads hpart hleads

namespace SameApart

theorem entries (h : SameApart part d d') :
    (d'.entries.entries.filter fun e => !part e.1 && !e.1.isEmpty) =
      d.entries.entries.filter fun e => !part e.1 && !e.1.isEmpty := by
  have hmem (d : Disk) (e : Location × Entry) : (e ∈ d.entries.entries.filter fun e => !part e.1 && !e.1.isEmpty) ↔
      part e.1 = false ∧ e.1 ≠ [] ∧ d.entry? e.1 = some e.2 := by
    rw [List.mem_filter]
    simp only [Bool.and_eq_true, Bool.not_eq_true', List.isEmpty_eq_false_iff]
    constructor
    · rintro ⟨he, hpart, hne⟩
      refine ⟨hpart, hne, ?_⟩
      unfold entry?
      rw [if_neg hne]
      exact Table.find_of_mem d.entries.increasing he
    · rintro ⟨hpart, hne, he⟩
      unfold entry? at he
      rw [if_neg hne] at he
      exact ⟨Table.mem_of_find he, hpart, hne⟩
  refine Table.eq_of_mem_iff (d'.entries.increasing.filter _) (d.entries.increasing.filter _) fun e => ?_
  rw [hmem, hmem]
  refine and_congr_right fun hpart => ?_
  rw [h.entry e.1 hpart]

theorem children (h : SameApart part d d') (here : Location) :
    ((d'.children here).filter fun c => !part (here ++ [c.1])) =
      (d.children here).filter fun c => !part (here ++ [c.1]) := by
  have hchildren (d : Disk) : ((d.children here).filter fun c => !part (here ++ [c.1])) =
      (d.entries.entries.filter fun e => !part e.1 && !e.1.isEmpty).filterMap fun e =>
        (e.1.getLast?.filter fun _ => e.1.dropLast = here).map fun name => (name, e.2) := by
    rw [Disk.children, List.filter_filterMap, List.filterMap_filter]
    refine List.filterMap_congr fun e _ => ?_
    obtain ⟨key, e⟩ := e
    dsimp only
    rcases List.eq_nil_or_concat key with rfl | ⟨init, name, rfl⟩
    · simp
    · rw [List.concat_eq_append, List.getLast?_concat, List.dropLast_concat]
      by_cases hinit : init = here
      · subst hinit
        cases hpart : part (init ++ [name]) <;> simp [Option.filter, hpart]
      · cases part (init ++ [name]) <;> simp [hinit]
  rw [hchildren, hchildren, h.entries]

theorem meet (h : SameApart part d d') (havoids : d.Misses part path) (e : Entry) :
    d'.meet stack here path name e = d.meet stack here path name e := by
  cases e with
  | file | directory | device => rfl
  | link target =>
      rw [Disk.meet, Disk.meet, h.locate havoids]
      cases hl : d.locate path with
      | error cause => rfl
      | ok l =>
          have houtside := havoids.outside h.isClosed hl
          dsimp only
          rw [h.isDirectoryAt houtside, h.grantsAt .read houtside, h.entry l houtside]

theorem readDirectory (h : SameApart part d d') (havoids : d.Misses part path) :
    d'.readDirectory path = d.readDirectory path := by
  rw [Disk.readDirectory, Disk.readDirectory, h.locate havoids]
  cases hl : d.locate path with
  | error cause => rfl
  | ok l =>
      dsimp only
      rw [h.grantsAt .read (havoids.outside h.isClosed hl)]

end SameApart

/-- Nothing of the area leads into the part. -/
structure IsBeside (part : Location → Bool) (d : Disk) (area : Location → Prop) : Prop where
  outside : ∀ l, area l → part l = false
  below : ∀ l name, area l → part (l ++ [name]) = false → d.isDirectoryAt (l ++ [name]) → area (l ++ [name])
  link : ∀ l name target, area l → part (l ++ [name]) = false → d.entry? (l ++ [name]) = some (.link target) →
    d.Avoids part (linkStart l target) (Path.steps target)
  through : ∀ l name target n l', area l → part (l ++ [name]) = false → d.entry? (l ++ [name]) = some (.link target) →
    Leads d n (linkStart l target) (Path.steps target) l' → d.isDirectoryAt l' → area l'

namespace IsBeside

theorem avoids_name (h : IsBeside part d area) (hhere : area here) (hl : part (here ++ [name]) = false) :
    d.Avoids part here [name] := by
  refine ⟨h.outside here hhere, fun l hpasses => ?_⟩
  cases hpasses with
  | look _ _ hlook => exact hlook ▸ hl
  | on _ hmove hrest =>
      cases hmove with
      | stay | up | enter => cases hrest
      | through _ he =>
          rw [List.append_nil] at hrest
          exact (h.link here name _ hhere hl he).2 l hrest

theorem misses_join (h : IsBeside part d area) (hpart : IsClosed part) (hhere : area here)
    (havoids : d.Misses part path) (hlocate : d.locate path = .ok here) (hname : Path.IsComponent name)
    (hl : part (here ++ [name]) = false) : d.Misses part (Path.join path name) := by
  obtain ⟨htext, n, -, hleads⟩ := locate_eq_ok.1 hlocate
  obtain ⟨-, hne, -⟩ := checkPath_eq_ok htext
  have hstart : d.start (Path.join path name) = d.start path := by
    rw [start, Path.isAbsolute_join hne hname, start]
  rw [Misses, hstart, Path.steps_join hne hname]
  refine Avoids.append hpart (havoids.of_append) fun k mid hmid => ?_
  obtain rfl := (leads_names hleads).unique hmid
  exact h.avoids_name hhere hl

theorem area_of_meet (h : IsBeside part d area) (hhere : area here) (hdir : d.isDirectoryAt here)
    (hlocate : d.locate path = .ok here) (hname : IsName name ∧ Path.IsComponent name) {e : Entry}
    (hentry : d.entry? (here ++ [name]) = some e) (hl : part (here ++ [name]) = false)
    (hm : d.meet stack here (Path.join path name) name e = .ok (.directory l)) : area l := by
  obtain ⟨htext, n, -, hleads⟩ := locate_eq_ok.1 hlocate
  obtain ⟨-, hne, -⟩ := checkPath_eq_ok htext
  cases e with
  | file | device => cases hm
  | directory mode =>
      obtain ⟨hdir', -⟩ := directory_of_meet hlocate hdir hname hentry hm
      cases hm
      exact h.below here name hhere hl hdir'
  | link target =>
      obtain ⟨-, _, he⟩ | ⟨hlocate', hdir', -⟩ := meet_eq_directory hm
      · cases he
      · obtain ⟨-, n', -, hleads'⟩ := locate_eq_ok.1 hlocate'
        have hstart : d.start (Path.join path name) = d.start path := by
          rw [start, Path.isAbsolute_join hne hname.2, start]
        rw [hstart, Path.steps_join hne hname.2] at hleads'
        obtain ⟨_, _, mid, -, hmid, hlast⟩ := hleads'.of_append
        obtain rfl := (leads_names hleads).unique hmid
        cases hlast with
        | step _ hmove hrest =>
            cases hmove with
            | stay hstays => exact absurd hstays hname.1.not_stays
            | up => exact absurd rfl hname.1.2.1
            | enter _ he hlink =>
                cases hentry.symm.trans he
                exact absurd rfl (hlink target)
            | through _ he =>
                cases hentry.symm.trans he
                rw [List.append_nil] at hrest
                exact h.through here name target _ l hhere hl hentry hrest hdir'

end IsBeside

/-- What a walk through the area lists of entries of the part is nothing, or a fault that stops it. -/
def Skips (d : Disk) (part : Location → Bool) (extension : String) (stops : WalkError → Prop)
    (area : Location → Prop) : Prop :=
  ∀ stack path here, area here → d.locate path = .ok here → ∀ c ∈ d.children here, part (here ++ [c.1]) = true →
    d.visitEntry extension stack path here c = .ok [] ∨
      ∃ fault, d.visitEntry extension stack path here c = .error fault ∧ stops fault

theorem Skips.visitEntries (h : d.Skips part extension stops area) (stack : List Standing) (hhere : area here)
    (hl : d.locate path = .ok here) :
    ((d.children here).mapM (d.visitEntry extension stack path here)).map List.flatten =
        (((d.children here).filter fun c => !part (here ++ [c.1])).mapM
          (d.visitEntry extension stack path here)).map List.flatten ∨
      ∃ fault, (d.children here).mapM (d.visitEntry extension stack path here) = .error fault ∧ stops fault :=
  mapM_filter fun c hc hp => h stack path here hhere hl c hc (by simpa using hp)

/-- Walks through the area on disks that are the same apart from the part. -/
structure Beside (part : Location → Bool) (d d' : Disk) (extension : String) (stops stops' : WalkError → Prop)
    (area : Location → Prop) : Prop where
  same : SameApart part d d'
  isNamed : d.IsNamed
  isBeside : IsBeside part d area
  skips : d.Skips part extension stops area
  skips' : d'.Skips part extension stops' area

namespace Beside

theorem visit (h : Beside part d d' extension stops stops' area) (hhere : area here) (hdir : d.isDirectoryAt here)
    (havoids : d.Misses part path) (hpath : ∀ l, d.locate path = .ok l → l = here) :
    Agree stops stops' (d.visit extension stack path here) (d'.visit extension stack path here) := by
  -- Each directory on the way down leaves less room for the next one, on either disk.
  induction hroom : d.room stack here using Nat.strong_induction_on generalizing stack path here with
  | _ room ih =>
    rw [visit_eq, visit_eq, h.same.readDirectory havoids]
    cases hread : d.readDirectory path with
    | error fault => exact .refl _
    | ok l =>
        obtain ⟨hl, -⟩ := readDirectory_eq_ok.1 hread
        obtain rfl := hpath l hl
        dsimp only
        have hshared : Agree stops stops'
            (((d.children l).filter fun c => !part (l ++ [c.1])).mapM (d.visitEntry extension stack path l))
            (((d.children l).filter fun c => !part (l ++ [c.1])).mapM (d'.visitEntry extension stack path l)) := by
          refine .mapM fun c hc => ?_
          obtain ⟨hc, houtside⟩ := List.mem_filter.1 hc
          obtain ⟨hkey, hentry⟩ := entry?_of_mem_children hc
          have hname := h.isNamed _ hkey c.1 (by simp)
          have houtside : part (l ++ [c.1]) = false := by simpa using houtside
          have hjoin := h.isBeside.misses_join h.same.isClosed hhere havoids hl hname.2 houtside
          unfold visitEntry
          rw [h.same.meet hjoin]
          cases hm : d.meet stack l (Path.join path c.1) c.1 c.2 with
          | error fault => exact .refl _
          | ok found =>
              dsimp only
              split
              · exact .refl _
              · cases found with
                | file | other => exact .refl _
                | directory below =>
                    obtain ⟨hdir', hpath'⟩ := directory_of_meet hl hdir hname hentry hm
                    have harea := h.isBeside.area_of_meet hhere hdir hl hname hentry houtside hm
                    exact ih _ (hroom ▸ room_lt_of_meet hc hm) harea hdir' hjoin hpath' rfl
        -- Off the part both walks see the same entries; the part adds nothing, or stops its walk.
        obtain heq | ⟨fault, hfault, hstops⟩ := h.skips.visitEntries stack hhere hl
        · obtain heq' | ⟨fault, hfault, hstops⟩ := h.skips'.visitEntries stack hhere ((h.same.locate havoids).trans hl)
          · rw [heq, heq', h.same.children]
            exact hshared.map _
          · rw [hfault]
            exact .inr (.inr ⟨fault, rfl, hstops⟩)
        · rw [hfault]
          exact .inr (.inl ⟨fault, rfl, hstops⟩)

theorem files (h : Beside part d d' extension stops stops' area) {directory : Path} (havoids : d.Misses part directory)
    (harea : ∀ l, d.locate directory = .ok l → d.isDirectoryAt l → area l) :
    Agree stops stops' (d.files directory extension) (d'.files directory extension) := by
  rw [Disk.files, Disk.files, h.same.locate havoids]
  cases hl : d.locate directory with
  | error cause => exact .refl _
  | ok l =>
      have houtside := havoids.outside h.same.isClosed hl
      dsimp only
      rw [h.same.isDirectoryAt houtside, h.same.isLink havoids hl, h.same.grantsAt .read houtside]
      split
      · next hdir =>
          split
          · exact .refl _
          · exact h.visit (harea l hl hdir) hdir havoids fun l' hl' => Except.ok.inj (hl'.symm.trans hl)
      · have hfile : d'.isFile directory = d.isFile directory := by
          rw [Disk.isFile, Disk.isFile, stat_of_locate hl, stat_of_locate ((h.same.locate havoids).trans hl),
            h.same.entry l houtside]
        rw [hfile]
        exact .refl _

theorem misses_of_mem_visit (h : Beside part d d' extension stops stops' area) (hhere : area here)
    (hdir : d.isDirectoryAt here) (havoids : d.Misses part path) (hpath : ∀ l, d.locate path = .ok l → l = here)
    {listed : List Path} (hlisted : d.visit extension stack path here = .ok listed) : ∀ f ∈ listed, d.Misses part f := by
  induction hroom : d.room stack here using Nat.strong_induction_on generalizing stack path here listed with
  | _ room ih =>
    intro f hf
    obtain ⟨l, hl⟩ := locate_of_visit hlisted
    obtain rfl := hpath l hl
    obtain ⟨c, hc, found, hmeet, hhidden, hfound⟩ := exists_of_mem_visit hlisted hf
    obtain ⟨hkey, hentry⟩ := entry?_of_mem_children hc
    have hname := h.isNamed _ hkey c.1 (by simp)
    have houtside : part (l ++ [c.1]) = false := by
      by_contra hpart
      have hvisit : d.visitEntry extension stack path l c = .ok [] := by
        obtain hnil | ⟨fault, hfault, -⟩ := h.skips stack path l hhere hl c hc (by simpa using hpart)
        · exact hnil
        · obtain ⟨rfl, -⟩ | ⟨l', below, rfl, -, hbelow⟩ := hfound
          · simp [visitEntry, hmeet, hhidden] at hfault
          · simp [visitEntry, hmeet, hhidden, hbelow] at hfault
      obtain ⟨rfl, rfl, hext⟩ | ⟨l', below, rfl, hmem, hbelow⟩ := hfound
      · simp [visitEntry, hmeet, hhidden, hext] at hvisit
      · simp only [visitEntry, hmeet, hhidden, hbelow, Bool.false_eq_true, if_false, Except.ok.injEq] at hvisit
        rw [hvisit] at hmem
        cases hmem
    have hjoin := h.isBeside.misses_join h.same.isClosed hhere havoids hl hname.2 houtside
    obtain ⟨-, rfl, -⟩ | ⟨l', below, rfl, hmem, hbelow⟩ := hfound
    · exact hjoin
    · obtain ⟨hdir', hpath'⟩ := directory_of_meet hl hdir hname hentry hmeet
      have harea := h.isBeside.area_of_meet hhere hdir hl hname hentry houtside hmeet
      exact ih _ (hroom ▸ room_lt_of_meet hc hmeet) harea hdir' hjoin hpath' hbelow rfl f hmem

theorem misses_of_mem_files (h : Beside part d d' extension stops stops' area) {directory : Path}
    (havoids : d.Misses part directory) (harea : ∀ l, d.locate directory = .ok l → d.isDirectoryAt l → area l)
    {listed : List Path} (hlisted : d.files directory extension = .ok listed) : ∀ f ∈ listed, d.Misses part f := by
  unfold Disk.files at hlisted
  split at hlisted
  · cases hlisted
  · next l hl =>
      split at hlisted
      · next hdir =>
          split at hlisted
          · cases hlisted
          · exact h.misses_of_mem_visit (harea l hl hdir) hdir havoids
              (fun l' hl' => Except.ok.inj (hl'.symm.trans hl)) hlisted
      · cases hlisted
        intro f hf
        split at hf
        · obtain rfl := List.mem_singleton.1 hf
          exact havoids
        · cases hf

end Beside

end Inlay.Disk
