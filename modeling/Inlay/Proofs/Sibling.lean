import Inlay.Disk.Sibling
import Inlay.Package
import Inlay.Proofs.Outside
import Inlay.Proofs.Step

namespace Inlay

namespace Disk

variable {d d' : Disk} {path : Path} {l sibling target : Location} {mode : Nat} {content : Bytes}

/-! ### Entries that come and go -/

theorem eq_of_entries (h : ∀ l, d.entries.get? l = d'.entries.get? l)
    (hworking : d.workingDirectory = d'.workingDirectory) (hprivileged : d.privileged = d'.privileged) : d = d' := by
  cases d
  cases d'
  cases hworking
  cases hprivileged
  cases Table.eq_of_get? h
  rfl

theorem erase_put (hl : l ≠ []) (h : d.entry? l = none) (e : Entry) : (d.put l e).erase l = d := by
  refine eq_of_entries (fun l' => ?_) rfl rfl
  change ((d.entries.insert l e).filter (· != l)).get? l' = d.entries.get? l'
  rw [Table.get?_filter]
  by_cases hl' : l' = l
  · subst hl'
    rw [if_neg (by simp), ← h, entry?, if_neg hl]
  · rw [if_pos (by simpa using hl'), Table.get?_insert_of_ne _ _ hl']

theorem put_put (d : Disk) (l : Location) (e e' : Entry) : (d.put l e).put l e' = d.put l e' := by
  refine eq_of_entries (fun l' => ?_) rfl rfl
  change ((d.entries.insert l e).insert l e').get? l' = (d.entries.insert l e').get? l'
  by_cases hl' : l' = l
  · rw [hl', Table.get?_insert_self, Table.get?_insert_self]
  · rw [Table.get?_insert_of_ne _ _ hl', Table.get?_insert_of_ne _ _ hl', Table.get?_insert_of_ne _ _ hl']

theorem setContent_put (hl : l ≠ []) (old new : Bytes) :
    (d.put l (.file mode old)).setContent l new = d.put l (.file mode new) := by
  rw [setContent, entry?_put_self hl]
  exact put_put _ _ _ _

theorem setMode_put (hl : l ≠ []) (old new : Nat) :
    (d.put l (.file old content)).setMode l new = d.put l (.file new content) := by
  rw [setMode, entry?_put_self hl]
  exact put_put _ _ _ _

theorem isDirectoryAt_of_none (h : d.entry? l = none) : d.isDirectoryAt l = false := by
  rw [isDirectoryAt, h]
  rfl

theorem locate_of_mode (h : d.mode path = .ok mode) : ∃ l, d.locate path = .ok l := by
  cases hl : d.locate path with
  | error cause =>
      have hstat : d.stat path = .error cause := by
        rw [stat, hl]
        rfl
      rw [Disk.mode, hstat] at h
      cases h
  | ok l => exact ⟨l, rfl⟩

/-! ### What is to be done -/

/-- Where a replacement puts the file. -/
def taken (d : Disk) (path : Path) : Except IoError Location := do
  let l ← d.place path
  if d.isDirectoryAt l then .error .isDirectory else .ok l

theorem taken_eq_ok : d.taken path = .ok l ↔ d.place path = .ok l ∧ d.isDirectoryAt l = false := by
  unfold taken
  cases d.place path with
  | error cause => exact ⟨nofun, nofun⟩
  | ok l' =>
      change (if d.isDirectoryAt l' then Except.error IoError.isDirectory else .ok l') = .ok l ↔ _
      split
      · next hdir =>
          constructor
          · nofun
          · rintro ⟨h, hl⟩
            cases h
            rw [hl] at hdir
            cases hdir
      · next hdir =>
          constructor
          · intro h
            cases h
            exact ⟨rfl, by simpa using hdir⟩
          · rintro ⟨h, -⟩
            exact h

theorem replace_of_mode_eq_error {cause : IoError} (h : d.mode path = .error cause) (content : Bytes) :
    d.replace path content = .error cause := by
  rw [replace, h]
  rfl

theorem replace_of_mode (h : d.mode path = .ok mode) (content : Bytes) :
    d.replace path content = (d.taken path).map fun l => d.put l (.file mode content) := by
  rw [replace, h, taken]
  cases d.place path with
  | error cause => rfl
  | ok l =>
      change (if d.isDirectoryAt l then Except.error IoError.isDirectory else _) =
        (if d.isDirectoryAt l then Except.error IoError.isDirectory else _).map _
      split <;> rfl

theorem replace_eq_ok : d.replace path content = .ok d' ↔
    ∃ mode l, d.mode path = .ok mode ∧ d.place path = .ok l ∧ d.isDirectoryAt l = false ∧
      d' = d.put l (.file mode content) := by
  cases hmode : d.mode path with
  | error cause =>
      rw [replace_of_mode_eq_error hmode]
      exact ⟨nofun, nofun⟩
  | ok mode =>
      rw [replace_of_mode hmode]
      cases htaken : d.taken path with
      | error cause =>
          refine ⟨nofun, ?_⟩
          rintro ⟨_, l, -, hl⟩
          rw [taken_eq_ok.2 ⟨hl.1, hl.2.1⟩] at htaken
          cases htaken
      | ok l =>
          obtain ⟨hplace, hl⟩ := taken_eq_ok.1 htaken
          constructor
          · intro h
            cases h
            exact ⟨mode, l, rfl, hplace, hl, rfl⟩
          · rintro ⟨_, l', h, hplace', -, rfl⟩
            cases h
            cases hplace.symm.trans hplace'
            rfl

theorem locate_put (hlocate : d.locate path = .ok target) (hs : d.entry? sibling = none) (mode : Nat) (content : Bytes) :
    (d.put sibling (.file mode content)).locate path = .ok target := by
  obtain ⟨htext, n, hn, hleads⟩ := locate_eq_ok.1 hlocate
  exact locate_eq_ok.2 ⟨htext, n, hn, hleads.put (isDirectoryAt_of_none hs) (hleads.not_passes hs)⟩

theorem place_put (hlocate : d.locate path = .ok target) (hs : d.entry? sibling = none) (mode : Nat) (content : Bytes) :
    (d.put sibling (.file mode content)).place path = d.place path := by
  obtain ⟨-, n, hn, hleads⟩ := locate_eq_ok.1 hlocate
  rw [place, place]
  cases hslash : Path.endsInSlash path with
  | true => rfl
  | false =>
      rw [Path.steps, hslash, if_neg (by simp), List.append_nil] at hleads
      rcases List.eq_nil_or_concat (Path.names path) with hnil | ⟨init, name, hconcat⟩
      · rw [hnil]
        rfl
      · rw [List.concat_eq_append] at hconcat
        rw [hconcat] at hleads ⊢
        obtain ⟨a, b, dir, rfl, hinit, hname⟩ := hleads.of_append
        have hdir : d.isDirectoryAt dir := by
          cases hname with
          | step hdir => exact hdir.1
        have hne : dir ≠ sibling := by
          rintro rfl
          rw [isDirectoryAt_of_none hs] at hdir
          cases hdir
        have hput : Leads (d.put sibling (.file mode content)) a (d.start path) init dir :=
          hinit.put (isDirectoryAt_of_none hs) (hinit.not_passes hs)
        have hstart : (d.put sibling (.file mode content)).start path = d.start path := rfl
        rw [List.dropLast_concat, hstart, hinit.follow_eq (by omega), hput.follow_eq (by omega)]
        simp only [bind, Except.bind, isDirectoryAt_put_of_ne _ hne, grantsAt_put_of_ne _ _ hne]

theorem rename_put (hlocate : d.locate path = .ok target) (hs : d.entry? sibling = none) (hne : sibling ≠ []) :
    (d.put sibling (.file mode content)).rename sibling path =
      (d.taken path).map fun l => d.put l (.file mode content) := by
  rw [rename, place_put hlocate hs, taken]
  cases d.place path with
  | error cause => rfl
  | ok l =>
      simp only [bind, Except.bind, isDirectoryAt_put_file (isDirectoryAt_of_none hs), entry?_put_self hne,
        erase_put hne hs]
      split <;> rfl

/-! ### Call by call -/

/-- A sibling of the path, under one of the names, is here. -/
def IsSibling (d : Disk) (path : Path) (names : List Path) (l : Location) : Prop :=
  ∃ name ∈ names, d.place (Path.join (d.siblingBase path) name) = .ok l

namespace IsSibling

variable {names : List Path}

theorem mono {names' : List Path} (h : d.IsSibling path names l) (hsub : names ⊆ names') : d.IsSibling path names' l :=
  let ⟨name, hname, hplace⟩ := h
  ⟨name, hsub hname, hplace⟩

theorem ne_nil (h : d.IsSibling path names l) : l ≠ [] := by
  obtain ⟨name, -, hplace⟩ := h
  obtain ⟨-, -, _, _, _, _, -, -, -, -, -, -, -, rfl⟩ := place_eq_ok.1 hplace
  simp

theorem put (h : d.IsSibling path names l) (hl : d.entry? l = none) (mode : Nat) (content : Bytes) :
    (d.put l (.file mode content)).IsSibling path names l := by
  obtain ⟨name, hname, hplace⟩ := h
  obtain ⟨htext, hslash, init, last, dir, n, hnames, hhere, habove, hn, hleads, hdir, hsearch, rfl⟩ :=
    place_eq_ok.1 hplace
  have hne : dir ≠ dir ++ [last] := by simp
  have hput : Leads (d.put (dir ++ [last]) (.file mode content)) n (d.start (Path.join (d.siblingBase path) name)) init dir :=
    hleads.put (isDirectoryAt_of_none hl) (hleads.not_passes hl)
  refine ⟨name, hname, place_eq_ok.2
    ⟨htext, hslash, init, last, dir, n, hnames, hhere, habove, hn, hput, ?_, ?_, rfl⟩⟩
  · rwa [isDirectoryAt_put_of_ne _ hne]
  · rwa [grantsAt_put_of_ne _ _ hne]

end IsSibling

theorem makeSibling_eq_ok {names : List Path} (h : d.makeSibling path names = .ok (sibling, d')) :
    d.IsSibling path names sibling ∧ d.entry? sibling = none ∧ d' = d.put sibling (.file 0o600 []) := by
  induction names with
  | nil => cases h
  | cons name names ih =>
      unfold makeSibling at h
      dsimp only at h
      split at h
      · cases h
      · next l hplace =>
          split at h
          · exact (ih h).imp_left fun hs => hs.mono (List.subset_cons_self name names)
          · next hfree =>
              cases h
              exact ⟨⟨name, List.mem_cons_self, hplace⟩, by simpa using hfree, rfl⟩

namespace Surroundings

variable {s : Surroundings} {α : Type}

theorem run_attempt (s : Surroundings) (call : Call) (f : Disk → Except IoError (α × Disk)) (d : Disk) :
    (s.attempt call f).run d =
      match s.refused call, f d with
      | some cause, _ | none, .error cause => (.error cause, d)
      | none, .ok (a, d') => (.ok a, d') := by
  refine (run_bind_of_ok (k := get) rfl).trans ?_
  cases s.refused call with
  | some cause => rfl
  | none =>
      cases f d with
      | error cause => rfl
      | ok a => rfl

theorem run_attempt_of_refused {call : Call} {cause : IoError} (h : s.refused call = some cause)
    (f : Disk → Except IoError (α × Disk)) (d : Disk) : (s.attempt call f).run d = (.error cause, d) := by
  rw [run_attempt, h]

theorem run_attempt_of_error {call : Call} {cause : IoError} {f : Disk → Except IoError (α × Disk)}
    (h : s.refused call = none) (hf : f d = .error cause) : (s.attempt call f).run d = (.error cause, d) := by
  rw [run_attempt, h, hf]

theorem run_attempt_of_ok {call : Call} {a : α} {f : Disk → Except IoError (α × Disk)}
    (h : s.refused call = none) (hf : f d = .ok (a, d')) : (s.attempt call f).run d = (.ok a, d') := by
  rw [run_attempt, h, hf]

/-- The first of the calls behind the making of the sibling that the system refuses. -/
def refusal (s : Surroundings) : Option IoError := [Call.write, .sync, .protect, .rename].findSome? s.refused

/-- Until the sibling takes the name over, the disk is the one from before with the sibling put in. -/
theorem run_install (s : Surroundings) (mode : Nat) (content : Bytes) : ∃ m c, ∀ {d : Disk} {path : Path}
    {target sibling : Location}, d.locate path = .ok target → d.entry? sibling = none → sibling ≠ [] →
    (s.install sibling mode path content).run (d.put sibling (.file 0o600 [])) =
      match s.refusal, d.taken path with
      | some cause, _ | none, .error cause => (.error cause, d.put sibling (.file m c))
      | none, .ok l => (.ok (), d.put l (.file mode content)) := by
  have hpartial {d : Disk} {sibling : Location} (hne : sibling ≠ []) :
      (modify (·.setContent sibling (content.take s.room)) : ExceptT IoError (StateM Disk) Unit).run
        (d.put sibling (.file 0o600 [])) = (.ok (), d.put sibling (.file 0o600 (content.take s.room))) := by
    change (Except.ok (), setContent _ sibling _) = _
    rw [setContent_put hne]
  simp only [refusal, List.findSome?_cons, List.findSome?_nil]
  cases hwrite : s.refused .write with
  | some cause =>
      refine ⟨0o600, content.take s.room, fun _ _ hne => ?_⟩
      rw [install, run_bind_of_ok (hpartial hne)]
      exact run_bind_of_error (run_attempt_of_refused hwrite _ _)
  | none =>
      have hwritten {d : Disk} {sibling : Location} (hne : sibling ≠ []) :
          (s.attempt .write fun d => .ok ((), d.setContent sibling content)).run
            (d.put sibling (.file 0o600 (content.take s.room))) = (.ok (), d.put sibling (.file 0o600 content)) :=
        run_attempt_of_ok hwrite (congrArg _ (congrArg _ (setContent_put hne _ content)))
      cases hsync : s.refused .sync with
      | some cause =>
          refine ⟨0o600, content, fun _ _ hne => ?_⟩
          rw [install, run_bind_of_ok (hpartial hne), run_bind_of_ok (hwritten hne)]
          exact run_bind_of_error (run_attempt_of_refused hsync _ _)
      | none =>
          cases hprotect : s.refused .protect with
          | some cause =>
              refine ⟨0o600, content, fun _ _ hne => ?_⟩
              rw [install, run_bind_of_ok (hpartial hne), run_bind_of_ok (hwritten hne),
                run_bind_of_ok (run_attempt_of_ok hsync rfl)]
              exact run_bind_of_error (run_attempt_of_refused hprotect _ _)
          | none =>
              refine ⟨mode, content, fun hlocate hs hne => ?_⟩
              rw [install, run_bind_of_ok (hpartial hne), run_bind_of_ok (hwritten hne),
                run_bind_of_ok (run_attempt_of_ok hsync rfl),
                run_bind_of_ok (run_attempt_of_ok hprotect (congrArg _ (congrArg _ (setMode_put hne _ mode))))]
              cases hrename : s.refused .rename with
              | some cause => exact run_attempt_of_refused hrename _ _
              | none =>
                  rw [run_attempt, hrename, rename_put hlocate hs hne]
                  cases Disk.taken _ _ <;> rfl

theorem run_tryCatch {ε σ : Type} (k : ExceptT ε (StateM σ) α) (f : ε → ExceptT ε (StateM σ) α) (x : σ) :
    (tryCatch k f).run x =
      match k.run x with
      | (.ok a, x') => (.ok a, x')
      | (.error e, x') => (f e).run x' := by
  have hbind (g : Except ε α → StateM σ (Except ε α)) : (k.run >>= g) x = g (k.run x).1 (k.run x).2 := rfl
  rw [ExceptT.run_tryCatch, hbind]
  rcases k.run x with ⟨_ | _, _⟩ <;> rfl

/-- A replacement that fails leaves the disk as it was, apart from a sibling that cannot be taken away again. -/
inductive Leaves (s : Surroundings) (path : Path) (d : Disk) : Disk → Prop
  | nothing : s.Leaves path d d
  | sibling {l : Location} {mode : Nat} {content : Bytes} (hrefused : s.refused .remove ≠ none)
      (hs : d.IsSibling path s.names l) (hfree : d.entry? l = none) : s.Leaves path d (d.put l (.file mode content))

theorem Leaves.eq_of_remove (h : s.Leaves path d d') (hremove : s.refused .remove = none) : d' = d := by
  cases h with
  | nothing => rfl
  | sibling hrefused => exact absurd hremove hrefused

namespace Leaves

variable {other : Path}

theorem privileged (h : s.Leaves path d d') : d'.privileged = d.privileged := by
  cases h with
  | nothing | sibling => rfl

theorem entry {e : Entry} (h : s.Leaves path d d') (he : d.entry? l = some e) : d'.entry? l = some e := by
  cases h with
  | nothing => exact he
  | sibling _ _ hfree =>
      rw [entry?_put_of_ne, he]
      rintro rfl
      cases hfree.symm.trans he

theorem locate (h : s.Leaves path d d') (hl : d.locate other = .ok l) : d'.locate other = .ok l := by
  cases h with
  | nothing => exact hl
  | sibling _ _ hfree => exact locate_put hl hfree _ _

theorem read (h : s.Leaves path d d') (hread : d.read other = .ok content) : d'.read other = .ok content := by
  obtain ⟨e, hstat, hgrants, he⟩ := read_eq_ok.1 hread
  obtain ⟨l, hl, hentry⟩ := stat_eq_ok.1 hstat
  refine read_eq_ok.2 ⟨e, stat_eq_ok.2 ⟨l, h.locate hl, h.entry hentry⟩, ?_, he⟩
  rwa [grants, h.privileged, ← grants]

end Leaves

/-- The sibling is taken away, if the system lets it. -/
def leave (s : Surroundings) (d : Disk) (sibling : Location) (e : Entry) : Disk :=
  if s.refused .remove = none then d else d.put sibling e

theorem leaves_leave (s : Surroundings) (hs : d.IsSibling path s.names sibling) (hfree : d.entry? sibling = none)
    (mode : Nat) (content : Bytes) : s.Leaves path d (s.leave d sibling (.file mode content)) := by
  unfold leave
  split
  · exact .nothing
  · next hrefused => exact .sibling hrefused hs hfree

theorem run_remove (s : Surroundings) (hne : sibling ≠ []) (hs : d.entry? sibling = none) (e : Entry) (cause : IoError) :
    (do
      if s.refused .remove = none then modify (·.erase sibling)
      throw cause : ExceptT IoError (StateM Disk) Unit).run (d.put sibling e) =
        (.error cause, s.leave d sibling e) := by
  unfold leave
  cases s.refused .remove with
  | none => exact congrArg (Except.error cause, ·) (erase_put hne hs e)
  | some refusal => rfl

/-- A replacement that gets as far as the sibling: it is done as a whole, or fails. What the sibling holds then does
not depend on the disk. -/
theorem run_replace_of_makeSibling (s : Surroundings) (hlook : s.refused .look = none)
    (hcreate : s.refused .create = none) (mode : Nat) (content : Bytes) : ∃ m c, ∀ {d d' : Disk} {path : Path}
    {sibling : Location}, d.mode path = .ok mode → d.makeSibling path s.names = .ok (sibling, d') →
    (s.replace path content).run d =
      match s.refusal, d.taken path with
      | some cause, _ | none, .error cause => (.error cause, s.leave d sibling (.file m c))
      | none, .ok l => (.ok (), d.put l (.file mode content)) := by
  obtain ⟨m, c, hinstall⟩ := s.run_install mode content
  refine ⟨m, c, fun {d d' path sibling} hmode hmake => ?_⟩
  obtain ⟨target, hlocate⟩ := locate_of_mode hmode
  obtain ⟨hsibling, hs, rfl⟩ := makeSibling_eq_ok hmake
  have hne := hsibling.ne_nil
  have hlook' : (s.attempt .look fun d => (d.mode path).map (·, d)).run d = (.ok mode, d) :=
    run_attempt_of_ok hlook (by rw [hmode]; rfl)
  rw [replace, run_bind_of_ok hlook', run_bind_of_ok (run_attempt_of_ok hcreate hmake), run_tryCatch,
    hinstall hlocate hs hne]
  cases s.refusal with
  | some cause => exact s.run_remove hne hs _ cause
  | none =>
      cases d.taken path with
      | error cause => exact s.run_remove hne hs _ cause
      | ok l => rfl

theorem run_replace_of_mode_eq_error (s : Surroundings) {cause : IoError} (hlook : s.refused .look = none)
    (hmode : d.mode path = .error cause) (content : Bytes) : (s.replace path content).run d = (.error cause, d) :=
  run_bind_of_error (run_attempt_of_error hlook (by rw [hmode]; rfl))

theorem run_replace_of_look_refused (s : Surroundings) {cause : IoError} (hlook : s.refused .look = some cause)
    (d : Disk) (path : Path) (content : Bytes) : (s.replace path content).run d = (.error cause, d) :=
  run_bind_of_error (run_attempt_of_refused hlook _ _)

theorem run_replace_of_no_sibling (s : Surroundings) {cause : IoError} (hlook : s.refused .look = none)
    (hmode : d.mode path = .ok mode)
    (hcreate : s.refused .create = some cause ∨ s.refused .create = none ∧ d.makeSibling path s.names = .error cause)
    (content : Bytes) : (s.replace path content).run d = (.error cause, d) := by
  have hlook' : (s.attempt .look fun d => (d.mode path).map (·, d)).run d = (.ok mode, d) :=
    run_attempt_of_ok hlook (by rw [hmode]; rfl)
  rw [replace, run_bind_of_ok hlook']
  apply run_bind_of_error
  obtain hrefused | ⟨hnone, hmake⟩ := hcreate
  · exact run_attempt_of_refused hrefused _ _
  · exact run_attempt_of_error hnone hmake

/-- Whatever the system refuses, the disk is the replaced one, or it fails and leaves next to nothing. -/
theorem run_replace_cases (s : Surroundings) (d : Disk) (path : Path) (content : Bytes) :
    (∃ cause d', (s.replace path content).run d = (.error cause, d') ∧ s.Leaves path d d') ∨
      ∃ d', d.replace path content = .ok d' ∧ (s.replace path content).run d = (.ok (), d') := by
  cases hlook : s.refused .look with
  | some cause => exact .inl ⟨cause, d, s.run_replace_of_look_refused hlook d path content, .nothing⟩
  | none =>
      cases hmode : d.mode path with
      | error cause => exact .inl ⟨cause, d, s.run_replace_of_mode_eq_error hlook hmode content, .nothing⟩
      | ok mode =>
          cases hcreate : s.refused .create with
          | some cause => exact .inl ⟨cause, d, s.run_replace_of_no_sibling hlook hmode (.inl hcreate) content, .nothing⟩
          | none =>
              cases hmake : d.makeSibling path s.names with
              | error cause =>
                  exact .inl ⟨cause, d, s.run_replace_of_no_sibling hlook hmode (.inr ⟨hcreate, hmake⟩) content, .nothing⟩
              | ok made =>
                  obtain ⟨m, c, hrun⟩ := s.run_replace_of_makeSibling hlook hcreate mode content
                  have hrun := hrun hmode hmake
                  obtain ⟨hs, hfree, -⟩ := makeSibling_eq_ok hmake
                  have hleaves := s.leaves_leave hs hfree m c
                  rw [replace_of_mode hmode]
                  cases hrefusal : s.refusal with
                  | some cause =>
                      rw [hrefusal] at hrun
                      exact .inl ⟨cause, _, hrun, hleaves⟩
                  | none =>
                      rw [hrefusal] at hrun
                      cases htaken : d.taken path with
                      | error cause =>
                          rw [htaken] at hrun
                          exact .inl ⟨cause, _, hrun, hleaves⟩
                      | ok l =>
                          rw [htaken] at hrun
                          exact .inr ⟨_, rfl, hrun⟩

/-- The system refuses nothing of its own, and siblings can be made under the names, under one of them as a new file. -/
structure IsSmooth (s : Surroundings) (d : Disk) (path : Path) : Prop where
  refused : ∀ call, s.refused call = none
  places : ∀ name ∈ s.names, ∃ l, d.place (Path.join (d.siblingBase path) name) = .ok l
  free : ∃ name ∈ s.names, ∃ l, d.place (Path.join (d.siblingBase path) name) = .ok l ∧ d.entry? l = none

theorem isSmooth_willing {name : Path} (hplace : d.place (Path.join (d.siblingBase path) name) = .ok l)
    (hfree : d.entry? l = none) : (willing name).IsSmooth d path := by
  refine ⟨fun _ => rfl, fun name' hname' => ?_, name, List.mem_singleton.2 rfl, l, hplace, hfree⟩
  obtain rfl := List.mem_singleton.1 hname'
  exact ⟨l, hplace⟩

theorem exists_makeSibling {names : List Path}
    (hplaces : ∀ name ∈ names, ∃ l, d.place (Path.join (d.siblingBase path) name) = .ok l)
    (hfree : ∃ name ∈ names, ∃ l, d.place (Path.join (d.siblingBase path) name) = .ok l ∧ d.entry? l = none) :
    ∃ made, d.makeSibling path names = .ok made := by
  induction names with
  | nil =>
      obtain ⟨_, hname, -⟩ := hfree
      cases hname
  | cons name names ih =>
      obtain ⟨l, hl⟩ := hplaces name List.mem_cons_self
      simp only [makeSibling, hl]
      cases he : d.entry? l with
      | none => exact ⟨_, if_neg (by simp)⟩
      | some e =>
          simp only [Option.isSome_some, if_true]
          obtain ⟨free, hmem, l', hl', hnone⟩ := hfree
          rcases List.mem_cons.1 hmem with rfl | hmem
          · cases hl.symm.trans hl'
            cases he.symm.trans hnone
          · exact ih (fun name hname => hplaces name (List.mem_cons_of_mem _ hname)) ⟨free, hmem, l', hl', hnone⟩

theorem IsSmooth.run_replace (h : s.IsSmooth d path) (content : Bytes) :
    (s.replace path content).run d =
      match d.replace path content with
      | .ok d' => (.ok (), d')
      | .error cause => (.error cause, d) := by
  cases hmode : d.mode path with
  | error cause =>
      rw [replace_of_mode_eq_error hmode]
      exact s.run_replace_of_mode_eq_error (h.refused .look) hmode content
  | ok mode =>
      obtain ⟨⟨sibling, d'⟩, hmake⟩ := exists_makeSibling h.places h.free
      have hrefusal : s.refusal = none := by simp [refusal, h.refused]
      obtain ⟨m, c, hrun⟩ := s.run_replace_of_makeSibling (h.refused .look) (h.refused .create) mode content
      rw [hrun hmode hmake, hrefusal, replace_of_mode hmode, leave, if_pos (h.refused .remove)]
      cases d.taken path <;> rfl

theorem IsSmooth.of_replace (h : s.IsSmooth d path) (hd : d.IsTree) {other : Path} (hfile : d.isFile other = true)
    {content : Bytes} (hreplace : d.replace other content = .ok d') : s.IsSmooth d' path := by
  obtain ⟨dir, name, target, mode, old, hname, hentry, -, -, rfl⟩ := exists_put_of_replace hd hfile hreplace
  refine ⟨h.refused, fun sibling hsibling => ?_, ?_⟩
  · obtain ⟨l, hl⟩ := h.places sibling hsibling
    exact ⟨l, hname.place_put hl⟩
  · obtain ⟨sibling, hsibling, l, hl, hfree⟩ := h.free
    refine ⟨sibling, hsibling, l, hname.place_put hl, ?_⟩
    rw [entry?_put_of_ne _ ?_, hfree]
    rintro rfl
    obtain rfl | ⟨t, ht⟩ := hname.eq_or_link
    · cases hentry.symm.trans hfree
    · cases ht.symm.trans hfree

end Surroundings

end Disk

theorem run_persist (s : Disk.Surroundings) (path : Path) (content : String) (d : Disk) :
    (persist s path content).run d =
      (((s.replace path (Text.encode content)).run d).1.mapError (.writeFailure path),
        ((s.replace path (Text.encode content)).run d).2) := run_adapt _ _ d

theorem run_persist_cases (s : Disk.Surroundings) (path : Path) (content : String) (d : Disk) :
    (∃ cause d', (persist s path content).run d = (.error (.writeFailure path cause), d') ∧ s.Leaves path d d') ∨
      ∃ d', d.replace path (Text.encode content) = .ok d' ∧ (persist s path content).run d = (.ok (), d') := by
  rw [run_persist]
  obtain ⟨cause, d', hrun, hleaves⟩ | ⟨d', hreplace, hrun⟩ := s.run_replace_cases d path (Text.encode content)
  · rw [hrun]
    exact .inl ⟨cause, d', rfl, hleaves⟩
  · rw [hrun]
    exact .inr ⟨d', hreplace, rfl⟩

theorem Disk.Surroundings.IsSmooth.run_persist {s : Disk.Surroundings} {d d' : Disk} {path : Path} {content : String}
    (h : s.IsSmooth d path) (hreplace : d.replace path (Text.encode content) = .ok d') :
    (persist s path content).run d = (.ok (), d') := by
  rw [Inlay.run_persist, h.run_replace, hreplace]
  rfl

end Inlay
