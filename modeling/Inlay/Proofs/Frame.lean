import Inlay.Proofs.Report

namespace Inlay

def HasSite (dsl : String) (d : Disk) (path : Path) : Prop :=
  ∃ text, readText d path = .ok text ∧ sitesOf dsl text ≠ []

theorem HasSite.isFile {dsl : String} {path : Path} {d d₀ : Disk} (h : HasSite dsl d path) (hlist : d₀.IsListable path)
    (hbarred : d₀.IsBarred path → d.locate path = d₀.locate path) : d₀.isFile path = true := by
  obtain ⟨text, hread, -⟩ := h
  exact Explorer.isFile_of_readText hlist hbarred hread

namespace Disk

variable {d d₁ d' : Disk} {path other : Path} {l : Location}

theorem exists_stat_of_isFile (h : d.isFile path = true) : ∃ mode content, d.stat path = .ok (.file mode content) := by
  obtain ⟨l, hl, mode, content, he⟩ := isFile_iff.1 h
  exact ⟨mode, content, stat_eq_ok.2 ⟨l, hl, he⟩⟩

theorem exists_place_of_isFile (hd : d.IsTree) (h : d.isFile path = true) : ∃ l, d.place path = .ok l := by
  obtain ⟨target, htarget, hfile⟩ := isFile_iff.1 h
  obtain ⟨init, dir, name, n, -, hnames, hslash, hn, hinit, hname⟩ := exists_namesFile hd htarget hfile
  exact ⟨_, place_of_namesFile (locate_eq_ok.1 htarget).1 hnames hslash hn hinit hname⟩

namespace NamesFile

variable {dir target : Location} {name : Path} {mode : Nat} {old content : Bytes}

theorem stat_put (h : d.NamesFile dir name target) (he : d.entry? target = some (.file mode old)) {m : Nat}
    {c : Bytes} (hother : d.stat other = .ok (.file m c)) :
    ∃ c', (d.put (dir ++ [name]) (.file mode content)).stat other = .ok (.file m c') := by
  obtain ⟨l, hl, hentry⟩ := stat_eq_ok.1 hother
  obtain ⟨htext, n, hn, hleads⟩ := locate_eq_ok.1 hl
  have hself : entry? (d.put (dir ++ [name]) (.file mode content)) (dir ++ [name]) = some (.file mode content) :=
    entry?_put_self (by simp) _
  have hlocate {k : Nat} {l' : Location} (hk : k ≤ n)
      (hleads' : Leads (d.put (dir ++ [name]) (.file mode content)) k (d.start other) (Path.steps other) l') :
      (d.put (dir ++ [name]) (.file mode content)).locate other = .ok l' :=
    locate_eq_ok.2 ⟨htext, k, Nat.le_trans hk hn, hleads'⟩
  have hmode : l = target → m = mode := by
    rintro rfl
    rw [he] at hentry
    cases hentry
    rfl
  -- The path leads on as before, or it came through the link that is replaced and ends there now.
  obtain ⟨k, hk, hleads'⟩ | ⟨rfl, k, hk, hleads'⟩ := h.leads_put mode content hleads
  · rw [stat_of_locate (hlocate hk hleads')]
    by_cases hsame : l = dir ++ [name]
    · have htarget : l = target := by
        by_contra hne
        exact h.ne_of_entry hentry nofun hne hsame
      rw [hsame, hself, hmode htarget]
      exact ⟨content, rfl⟩
    · rw [entry?_put_of_ne _ hsame, hentry]
      exact ⟨c, rfl⟩
  · rw [stat_of_locate (hlocate hk hleads'), hself, hmode rfl]
    exact ⟨content, rfl⟩

end NamesFile

theorem locate_of_place (hd : d.IsTree) (hfile : d.isFile path = true) (hplace : d.place path = .ok l)
    (hlink : ∀ t, d.entry? l ≠ some (.link t)) : d.locate path = .ok l := by
  obtain ⟨target, htarget, htargetFile⟩ := isFile_iff.1 hfile
  obtain ⟨init, dir, name, n, -, hnames, hslash, hn, hinit, hname⟩ := exists_namesFile hd htarget htargetFile
  have hplace' := place_of_namesFile (locate_eq_ok.1 htarget).1 hnames hslash hn hinit hname
  obtain rfl : l = dir ++ [name] := Except.ok.inj (hplace.symm.trans hplace')
  obtain rfl | ⟨t, ht⟩ := hname.eq_or_link
  · exact htarget
  · exact absurd ht (hlink t)

/-- A path of the list names the entry, and leads to a file with these permission bits and a text with a
call-site. -/
def Targeted (d : Disk) (dsl : String) (files : List Path) (l : Location) (mode : Nat) : Prop :=
  ∃ path ∈ files, d.place path = .ok l ∧ (∃ content, d.stat path = .ok (.file mode content)) ∧ HasSite dsl d path

inductive Renewed (d : Disk) (dsl : String) (files : List Path) (l : Location) : Option Entry → Option Entry → Prop
  | same (e : Option Entry) : Renewed d dsl files l e e
  | content {mode : Nat} (old new : Bytes) (h : d.Targeted dsl files l mode) :
      Renewed d dsl files l (some (.file mode old)) (some (.file mode new))
  | link {mode : Nat} (target : Path) (new : Bytes) (h : d.Targeted dsl files l mode) :
      Renewed d dsl files l (some (.link target)) (some (.file mode new))

namespace Renewed

variable {dsl : String} {files : List Path} {e e' : Option Entry}

theorem eq_none_iff (h : d.Renewed dsl files l e e') : e' = none ↔ e = none := by
  cases h with
  | same => exact Iff.rfl
  | content | link => exact ⟨nofun, nofun⟩

theorem eq_of_ne (h : d.Renewed dsl files l e e') (hfile : ∀ mode content, e ≠ some (.file mode content))
    (hlink : ∀ target, e ≠ some (.link target)) : e' = e := by
  cases h with
  | same => rfl
  | content old => exact absurd rfl (hfile _ old)
  | link target => exact absurd rfl (hlink target)

theorem exists_content {mode : Nat} {old : Bytes} (h : d.Renewed dsl files l (some (.file mode old)) e') :
    ∃ new, e' = some (.file mode new) := by
  cases h with
  | same => exact ⟨old, rfl⟩
  | content _ new => exact ⟨new, rfl⟩

theorem link_cases {target : Path} (h : d.Renewed dsl files l (some (.link target)) e') :
    e' = some (.link target) ∨ ∃ mode new, d.Targeted dsl files l mode ∧ e' = some (.file mode new) := by
  cases h with
  | same => exact .inl rfl
  | link _ new ht => exact .inr ⟨_, new, ht, rfl⟩

end Renewed

/-- What replacing the files of some of the paths leaves of a tree. -/
structure Kept (dsl : String) (files : List Path) (d d' : Disk) : Prop where
  isTree : d'.IsTree
  barred : ∀ path, d.IsBarred path → d'.locate path = d.locate path
  entry : ∀ l, d.Renewed dsl files l (d.entry? l) (d'.entry? l)
  place : ∀ path l, d.place path = .ok l → d'.place path = .ok l
  stat : ∀ path mode content, d.stat path = .ok (.file mode content) → ∃ new, d'.stat path = .ok (.file mode new)
  site : ∀ path, d.isFile path = true → HasSite dsl d' path → HasSite dsl d path

namespace Kept

variable {dsl : String} {files : List Path}

theorem refl (hd : d.IsTree) : Kept dsl files d d :=
  ⟨hd, fun _ _ => rfl, fun _ => .same _, fun _ _ => id, fun _ _ content h => ⟨content, h⟩, fun _ _ => id⟩

theorem isFile (h : Kept dsl files d d') (hfile : d.isFile path = true) : d'.isFile path = true := by
  obtain ⟨mode, content, hstat⟩ := exists_stat_of_isFile hfile
  obtain ⟨new, hstat'⟩ := h.stat path mode content hstat
  rw [Disk.isFile, hstat']
  rfl

theorem isBarred (h : Kept dsl files d d') (hbarred : d.IsBarred path) : d'.IsBarred path := by
  rwa [IsBarred, h.barred path hbarred]

theorem isListable (h : Kept dsl files d d') (hlist : d.IsListable path) : d'.IsListable path :=
  hlist.imp h.isFile (.imp_right h.isBarred)

theorem isFileAt (h : Kept dsl files d d') (hfile : d.IsFileAt l) : d'.IsFileAt l := by
  obtain ⟨mode, content, he⟩ := hfile
  obtain ⟨new, hnew⟩ := (he ▸ h.entry l).exists_content
  exact ⟨mode, new, hnew⟩

theorem place_eq (h : Kept dsl files d d') (hd : d.IsTree) (hfile : d.isFile path = true)
    (hplace : d'.place path = .ok l) : d.place path = .ok l := by
  obtain ⟨l', hl'⟩ := exists_place_of_isFile hd hfile
  rw [hl', ← h.place path l' hl', hplace]

theorem stat_eq (h : Kept dsl files d d') (hfile : d.isFile path = true) {mode : Nat} {content : Bytes}
    (hstat : d'.stat path = .ok (.file mode content)) : ∃ old, d.stat path = .ok (.file mode old) := by
  obtain ⟨mode', old, hold⟩ := exists_stat_of_isFile hfile
  obtain ⟨new, hnew⟩ := h.stat path mode' old hold
  rw [hstat] at hnew
  cases hnew
  exact ⟨old, hold⟩

theorem targeted (h : Kept dsl files d d₁) (hd : d.IsTree) (hlist : ∀ f ∈ files, d.IsListable f) {mode : Nat}
    (ht : d₁.Targeted dsl files l mode) : d.Targeted dsl files l mode := by
  obtain ⟨path, hpath, hplace, ⟨content, hstat⟩, hsite⟩ := ht
  have hfile := hsite.isFile (hlist path hpath) (h.barred path)
  exact ⟨path, hpath, h.place_eq hd hfile hplace, h.stat_eq hfile hstat, h.site path hfile hsite⟩

theorem trans (h : Kept dsl files d d₁) (h' : Kept dsl files d₁ d') (hd : d.IsTree)
    (hlist : ∀ f ∈ files, d.IsListable f) : Kept dsl files d d' := by
  refine ⟨h'.isTree, fun path hbarred => ?_, fun l => ?_, fun path l hl => h'.place path l (h.place path l hl), ?_, ?_⟩
  · rw [h'.barred path (h.isBarred hbarred), h.barred path hbarred]
  · -- What the first step has made of a link is a file for the second one.
    have hfirst := h.entry l
    have hsecond := h'.entry l
    generalize d.entry? l = e at hfirst
    generalize d₁.entry? l = e₁ at hfirst hsecond
    generalize d'.entry? l = e' at hsecond
    cases hsecond with
    | same => exact hfirst
    | content _ new ht =>
        have ht := h.targeted hd hlist ht
        cases hfirst with
        | same => exact .content _ new ht
        | content old => exact .content old new ht
        | link target => exact .link target new ht
    | link target new ht =>
        cases hfirst with
        | same => exact .link target new (h.targeted hd hlist ht)
  · intro path mode content hstat
    obtain ⟨mid, hmid⟩ := h.stat path mode content hstat
    exact h'.stat path mode mid hmid
  · intro path hfile hsite
    exact h.site path hfile (h'.site path (h.isFile hfile) hsite)

theorem of_replace (hd : d.IsTree) (hmem : path ∈ files) (hfile : d.isFile path = true) (hsite : HasSite dsl d path)
    {content : Bytes} (h : d.replace path content = .ok d') : Kept dsl files d d' := by
  obtain ⟨d₁, hreplace, htree, -, -, hothers⟩ := exists_replace_reads hd hfile content
  obtain rfl : d' = d₁ := Except.ok.inj (h.symm.trans hreplace)
  obtain ⟨dir, name, target, mode, old, hname, hentry, hplace, hstat, heq⟩ := exists_put_of_replace hd hfile h
  refine ⟨htree, fun other hbarred => ?_, fun l => ?_, fun other l => ?_, fun other m c => ?_, fun other hother hsite' => ?_⟩
  · obtain ⟨cause, hcause, hlocate⟩ := isBarred_iff.1 hbarred
    rw [locate_replace_of_error hd hfile h hcause hlocate, hlocate]
  · rw [heq]
    by_cases hl : l = dir ++ [name]
    · subst hl
      have ht : d.Targeted dsl files (dir ++ [name]) mode := ⟨path, hmem, hplace, ⟨old, hstat⟩, hsite⟩
      rw [entry?_put_self (by simp)]
      obtain rfl | ⟨t, hlink⟩ := hname.eq_or_link
      · rw [hentry]
        exact .content old content ht
      · rw [hlink]
        exact .link t content ht
    · rw [entry?_put_of_ne _ hl]
      exact .same _
  · rw [heq]
    exact hname.place_put
  · rw [heq]
    exact hname.stat_put hentry
  · obtain ⟨l, e, hfinds⟩ := exists_finds_of_isFile hother
    obtain ⟨-, hsame, -⟩ | ⟨hsame, -⟩ := hothers other l e hfinds
    · obtain ⟨text, hread, hcalls⟩ := hsite'
      exact ⟨text, readText_congr (read_congr (privileged_of_replace h).symm hsame.symm) hread, hcalls⟩
    · -- the other path leads to the file that had the call-site
      obtain ⟨text, hread, hcalls⟩ := hsite
      exact ⟨text, readText_congr (by simp only [Disk.read, Disk.openEntry, Disk.stat, hsame]) hread, hcalls⟩

end Kept

/-- The path had a call-site to expand, and what it names is a file now. -/
structure Settled (dsl : String) (files : List Path) (d d' : Disk) (path : Path) : Prop where
  mem : path ∈ files
  site : HasSite dsl d path
  isFileAt : ∃ l, d.place path = .ok l ∧ d'.IsFileAt l

namespace Settled

variable {dsl : String} {files : List Path}

theorem before (h : Settled dsl files d d' path) (hd : d₁.IsTree) (hlist : ∀ f ∈ files, d₁.IsListable f)
    (hk : Kept dsl files d₁ d) : Settled dsl files d₁ d' path := by
  have hfile := h.site.isFile (hlist path h.mem) (hk.barred path)
  obtain ⟨l, hplace, hat⟩ := h.isFileAt
  exact ⟨h.mem, hk.site path hfile h.site, l, hk.place_eq hd hfile hplace, hat⟩

theorem after (h : Settled dsl files d d₁ path) (hk : Kept dsl files d₁ d') : Settled dsl files d d' path := by
  obtain ⟨l, hplace, hat⟩ := h.isFileAt
  exact ⟨h.mem, h.site, l, hplace, hk.isFileAt hat⟩

end Settled

end Disk

namespace Explorer

open Disk

variable {x : Explorer} {q : Request} {files : List Path}

/-- Handling one file leaves the disk as it is, or the text of the file has a call-site and the file is
replaced; a failure leaves next to nothing. -/
theorem processFile_replaces (hq : q.mode = .eject) (ht : ∀ t, x.registry.resolve q.dsl = .ok t → t.KeepsDisk)
    {file : Path} {w w' : World} {r : Except Error Bool} (h : (x.processFile q file).run w = (r, w')) :
    (w'.disk = w.disk ∧ r ≠ .ok true) ∨ ((∃ e, r = .error e) ∧ (x.surroundings file).Leaves file w.disk w'.disk) ∨
      (HasSite q.dsl w.disk file ∧ ∃ content, w.disk.replace file content = .ok w'.disk) := by
  cases hread : readText w.disk file with
  | error e =>
      rw [run_processFile_of_error hread] at h
      cases h
      exact .inl ⟨rfl, nofun⟩
  | ok text =>
      rw [run_processFile_of_ok hread] at h
      obtain ⟨result, d, hexpand⟩ : ∃ result d, (x.registry.expand text q.dsl).run w.disk = (result, d) := ⟨_, _, rfl⟩
      obtain rfl : d = w.disk := by simpa [hexpand] using Registry.expand_keeps ht text w.disk
      have hstep : (Step.onDisk (x.registry.expand text q.dsl)).run w = (result, w) := by
        rw [Step.run_onDisk, hexpand]
      cases result with
      | error e =>
          rw [run_bind_of_error hstep] at h
          cases h
          exact .inl ⟨rfl, nofun⟩
      | ok e =>
          rw [run_bind_of_ok hstep] at h
          cases hchanged : e.changed with
          | false =>
              rw [hchanged] at h
              cases h
              exact .inl ⟨rfl, nofun⟩
          | true =>
              rw [hchanged, if_pos rfl, present_of_eject hq ⟨file, text, e.content⟩, bind_assoc] at h
              have hreplace := Step.run_onDisk (persist (x.surroundings file) file e.content) w
              obtain ⟨cause, d, hpersist, hleaves⟩ | ⟨d, hdone, hpersist⟩ :=
                run_persist_cases (x.surroundings file) file e.content w.disk
              · rw [hpersist] at hreplace
                rw [run_bind_of_error hreplace] at h
                cases h
                exact .inr (.inl ⟨⟨_, rfl⟩, hleaves⟩)
              · rw [hpersist] at hreplace
                rw [run_bind_of_ok hreplace] at h
                have hdisk := Step.emitAll_keeps_disk (x.texts q ⟨file, text, e.content⟩) { w with disk := d }
                rw [← run_bind_pure_snd _ fun _ => true, h] at hdisk
                obtain rfl : w'.disk = d := hdisk
                exact .inr (.inr ⟨⟨text, hread, (Registry.changed_iff_of_expand hexpand).1 hchanged⟩, _, hdone⟩)

theorem processFile_kept (hq : q.mode = .eject) (ht : ∀ t, x.registry.resolve q.dsl = .ok t → t.KeepsDisk)
    {file : Path} {w w' : World} (hd : w.disk.IsTree) (hmem : file ∈ files) (hlist : w.disk.IsListable file)
    {r : Except Error Bool} (h : (x.processFile q file).run w = (r, w')) :
    ((∃ e, r = .error e) ∧ (x.surroundings file).Leaves file w.disk w'.disk) ∨
      Kept q.dsl files w.disk w'.disk ∧ (r = .ok true → Settled q.dsl files w.disk w'.disk file) := by
  obtain ⟨hdisk, hr⟩ | hfails | ⟨hsite, content, hreplace⟩ := processFile_replaces hq ht h
  · rw [hdisk]
    exact .inr ⟨.refl hd, fun h => absurd h hr⟩
  · exact .inl hfails
  · have hfile := hsite.isFile hlist fun _ => rfl
    obtain ⟨dir, name, target, mode, old, -, -, hplace, -, heq⟩ := exists_put_of_replace hd hfile hreplace
    refine .inr ⟨.of_replace hd hmem hfile hsite hreplace, fun _ => ⟨hmem, hsite, _, hplace, mode, content, ?_⟩⟩
    rw [heq]
    exact entry?_put_self (by simp) _

/-- The files are replaced one after the other. Only the one that a run stops at can leave a sibling. -/
theorem processFiles_kept (hq : q.mode = .eject) (ht : ∀ t, x.registry.resolve q.dsl = .ok t → t.KeepsDisk)
    {w w' : World} (hd : w.disk.IsTree) (hlist : ∀ f ∈ files, w.disk.IsListable f) {later : List Path}
    (hsub : later ⊆ files) {r : Except Error (List Path)} (h : (x.processFiles q later).run w = (r, w')) :
    ∃ d, Kept q.dsl files w.disk d ∧ x.Ends later d w'.disk ∧
      ∀ changed, r = .ok changed → w'.disk = d ∧ ∀ p ∈ changed, Settled q.dsl files w.disk d p := by
  induction later generalizing w w' r with
  | nil =>
      cases h
      refine ⟨_, .refl hd, .inl rfl, fun changed hc => ⟨rfl, fun p hp => ?_⟩⟩
      cases hc
      cases hp
  | cons file later ih =>
      obtain ⟨hmem, hsub⟩ := List.cons_subset.1 hsub
      obtain ⟨result, w₁, hfirst⟩ : ∃ result w₁, (x.processFile q file).run w = (result, w₁) := ⟨_, _, rfl⟩
      obtain ⟨⟨e, rfl⟩, hleaves⟩ | ⟨hkept, hsettled⟩ := processFile_kept hq ht hd hmem (hlist file hmem) hfirst
      · rw [processFiles, run_bind_of_error hfirst] at h
        cases h
        exact ⟨_, .refl hd, .inr ⟨file, List.mem_cons_self, hleaves⟩, fun _ hc => by cases hc⟩
      · cases result with
        | error e =>
            rw [processFiles, run_bind_of_error hfirst] at h
            cases h
            exact ⟨_, hkept, .inl rfl, fun _ hc => by cases hc⟩
        | ok first =>
            rw [processFiles, run_bind_of_ok hfirst] at h
            obtain ⟨result, w₂, hrest⟩ : ∃ result w₂, (x.processFiles q later).run w₁ = (result, w₂) := ⟨_, _, rfl⟩
            obtain ⟨d, hkept', hends, hrestSettled⟩ :=
              ih hkept.isTree (fun f hf => hkept.isListable (hlist f hf)) hsub hrest
            have hkept₂ := hkept.trans hkept' hd hlist
            cases result with
            | error e =>
                rw [run_bind_of_error hrest] at h
                cases h
                exact ⟨d, hkept₂, hends.mono (List.subset_cons_self _ _), fun _ hc => by cases hc⟩
            | ok rest =>
                rw [run_bind_of_ok hrest] at h
                cases h
                obtain ⟨hdisk, hrestSettled⟩ := hrestSettled rest rfl
                refine ⟨d, hkept₂, .inl hdisk, fun changed hc => ⟨hdisk, fun p hp => ?_⟩⟩
                cases hc
                have hlater : p ∈ rest → Settled q.dsl files w.disk d p :=
                  fun hp => (hrestSettled p hp).before hd hlist hkept
                cases first with
                | false => exact hlater hp
                | true =>
                    rcases List.mem_cons.1 hp with rfl | hp
                    · exact (hsettled rfl).after hkept'
                    · exact hlater hp

theorem isListable_of_resolve {d : Disk} (hnamed : d.IsNamed) (h : x.resolve d q = .ok files) :
    ∀ f ∈ files, d.IsListable f := by
  cases htarget : q.target with
  | error e =>
      unfold resolve at h
      rw [htarget] at h
      split at h
      · cases h
      · cases h
  | ok target =>
      have hfiles := ((resolve_eq_ok htarget).1 h).2
      cases target with
      | package key => exact isListable_of_mem_files hnamed hfiles
      | file path =>
          change (if d.isFile path then .ok [path] else .error _ : Except Error (List Path)) = _ at hfiles
          split at hfiles
          · next hfile =>
              cases hfiles
              intro f hf
              obtain rfl := List.mem_singleton.1 hf
              exact .inl hfile
          · cases hfiles

theorem run_kept (hq : q.mode = .eject) (ht : ∀ t, x.registry.resolve q.dsl = .ok t → t.KeepsDisk) {w w' : World}
    (hd : w.disk.IsTree) (hnamed : w.disk.IsNamed) {r : Except Error Report} (h : (x.run q).run w = (r, w')) :
    ∃ files d, (∀ f ∈ files, x.resolve w.disk q = .ok files ∧ w.disk.IsListable f) ∧
      Kept q.dsl files w.disk d ∧ x.Ends files d w'.disk ∧
      ∀ report, r = .ok report → w'.disk = d ∧ ∀ p ∈ report.changedFiles, Settled q.dsl files w.disk d p := by
  cases hfiles : x.resolve w.disk q with
  | error e =>
      rw [run_of_resolve_error hfiles] at h
      cases h
      exact ⟨[], _, nofun, .refl hd, .inl rfl, nofun⟩
  | ok files =>
      have hlist := isListable_of_resolve hnamed hfiles
      rw [run_of_resolve_ok hfiles] at h
      obtain ⟨result, w₁, hgate⟩ : ∃ result w₁, (gate q).run w = (result, w₁) := ⟨_, _, rfl⟩
      have hdisk : w₁.disk = w.disk := by simpa [hgate] using gate_keeps_disk q w
      cases result with
      | error e =>
          rw [run_bind_of_error hgate] at h
          cases h
          exact ⟨files, _, fun f hf => ⟨rfl, hlist f hf⟩, .refl hd, .inl hdisk, nofun⟩
      | ok =>
          rw [run_bind_of_ok hgate] at h
          obtain ⟨result, w₂, hrun⟩ : ∃ result w₂, (x.processFiles q files).run w₁ = (result, w₂) := ⟨_, _, rfl⟩
          obtain ⟨d, hkept, hends, hsettled⟩ := processFiles_kept hq ht (hdisk ▸ hd) (hdisk ▸ hlist)
            (List.Subset.refl files) hrun
          rw [hdisk] at hkept hsettled
          refine ⟨files, d, fun f hf => ⟨rfl, hlist f hf⟩, hkept, ?_⟩
          cases result with
          | error e =>
              rw [run_bind_of_error hrun] at h
              cases h
              exact ⟨hends, nofun⟩
          | ok changed =>
              rw [run_bind_of_ok hrun] at h
              cases h
              refine ⟨hends, fun report hreport => ?_⟩
              cases hreport
              exact hsettled changed rfl

theorem Ends.entry {d d' : Disk} {l : Location} {e : Entry} (h : x.Ends files d d') (he : d.entry? l = some e) :
    d'.entry? l = some e := by
  obtain rfl | ⟨file, -, hleaves⟩ := h
  · exact he
  · exact hleaves.entry he

theorem Ends.eq_none_cases {d d' : Disk} (h : x.Ends files d d') :
    (∀ l, d.entry? l = none → d'.entry? l = none) ∨
      ∃ file left, file ∈ files ∧ (x.surroundings file).refused .remove ≠ none ∧ d.entry? left = none ∧
        d'.IsSibling file (x.surroundings file).names left ∧ d'.IsFileAt left ∧
        ∀ l, l ≠ left → d.entry? l = none → d'.entry? l = none := by
  obtain rfl | ⟨file, hfile, hleaves⟩ := h
  · exact .inl fun _ => id
  · cases hleaves with
    | nothing => exact .inl fun _ => id
    | @sibling left mode content hrefused hs hfree =>
        refine .inr ⟨file, left, hfile, hrefused, hfree, hs.put hfree mode content,
          ⟨mode, content, entry?_put_self hs.ne_nil _⟩, ?_⟩
        intro l hl hnone
        rw [entry?_put_of_ne _ hl, hnone]

end Explorer

/-- However an eject ends, the tree has the entries it had: directories and devices as they were, and files
with their permission bits. A link is the same link, unless a listed path with a call-site names it; then it
may have become a file. Nothing else has come, apart from the sibling of a file that the run failed at, if the
system refused to take it away. A path that is reported leads to the entry that it names. -/
theorem eject_keeps_entries {x : Explorer} {q : Request} {w w' : World} {r : Except Error Report}
    (hd : w.disk.IsTree) (hnamed : w.disk.IsNamed) (hq : q.mode = .eject)
    (ht : ∀ t, x.registry.resolve q.dsl = .ok t → t.KeepsDisk) (h : (x.run q).run w = (r, w')) :
    (∀ l, w'.disk.entry? l = none → w.disk.entry? l = none) ∧
    ((∀ l, w'.disk.entry? l = none ↔ w.disk.entry? l = none) ∨
      (∃ e, r = .error e) ∧ ∃ files file left, x.resolve w.disk q = .ok files ∧ file ∈ files ∧
        (x.surroundings file).refused .remove ≠ none ∧ w.disk.entry? left = none ∧
        w'.disk.IsSibling file (x.surroundings file).names left ∧ w'.disk.IsFileAt left ∧
        ∀ l, l ≠ left → (w'.disk.entry? l = none ↔ w.disk.entry? l = none)) ∧
    (∀ l mode, w.disk.entry? l = some (.directory mode) → w'.disk.entry? l = some (.directory mode)) ∧
    (∀ l kind, w.disk.entry? l = some (.device kind) → w'.disk.entry? l = some (.device kind)) ∧
    (∀ l mode old, w.disk.entry? l = some (.file mode old) → ∃ new, w'.disk.entry? l = some (.file mode new)) ∧
    (∀ l target, w.disk.entry? l = some (.link target) →
      w'.disk.entry? l = some (.link target) ∨
        ∃ files path mode old new, x.resolve w.disk q = .ok files ∧ path ∈ files ∧ w.disk.place path = .ok l ∧
          w.disk.stat path = .ok (.file mode old) ∧ HasSite q.dsl w.disk path ∧
          w'.disk.entry? l = some (.file mode new)) ∧
    (∀ report, r = .ok report → ∀ path ∈ report.changedFiles, ∃ l,
      w.disk.place path = .ok l ∧ w'.disk.locate path = .ok l ∧
        ((∀ target, w.disk.entry? l ≠ some (.link target)) → w.disk.locate path = .ok l)) := by
  obtain ⟨files, d, hfiles, hkept, hends, hsettled⟩ := Explorer.run_kept hq ht hd hnamed h
  have hnone (l : Location) : d.entry? l = none ↔ w.disk.entry? l = none := (hkept.entry l).eq_none_iff
  have hgone (l : Location) (hl : w'.disk.entry? l = none) : w.disk.entry? l = none := by
    refine (hnone l).1 (Option.eq_none_iff_forall_ne_some.2 fun e he => ?_)
    rw [hends.entry he] at hl
    cases hl
  refine ⟨hgone, ?_, fun l mode he => ?_, fun l kind he => ?_, fun l mode old he => ?_, fun l target he => ?_,
    fun report hr path hpath => ?_⟩
  · obtain hsame | ⟨file, left, hfile, hrefused, hfree, hs, hat, hsame⟩ := hends.eq_none_cases
    · exact .inl fun l => ⟨hgone l, fun hl => hsame l ((hnone l).2 hl)⟩
    · cases r with
      | ok report =>
          rw [(hsettled report rfl).1]
          exact .inl hnone
      | error e =>
          refine .inr ⟨⟨e, rfl⟩, files, file, left, (hfiles file hfile).1, hfile, hrefused, (hnone left).1 hfree, hs, hat,
            fun l hl => ⟨hgone l, fun h => ?_⟩⟩
          exact hsame l hl ((hnone l).2 h)
  · exact hends.entry ((he ▸ hkept.entry l).eq_of_ne nofun nofun)
  · exact hends.entry ((he ▸ hkept.entry l).eq_of_ne nofun nofun)
  · obtain ⟨new, hnew⟩ := (he ▸ hkept.entry l).exists_content
    exact ⟨new, hends.entry hnew⟩
  · refine (he ▸ hkept.entry l).link_cases.imp hends.entry ?_
    rintro ⟨mode, new, ⟨path, hpath, hplace, ⟨old, hstat⟩, hsite⟩, hnew⟩
    exact ⟨files, path, mode, old, new, (hfiles path hpath).1, hpath, hplace, hstat, hsite, hends.entry hnew⟩
  · obtain ⟨hdisk, hsettled⟩ := hsettled report hr
    have hs := hsettled path hpath
    obtain ⟨l, hplace, hat⟩ := hs.isFileAt
    have hfile := hs.site.isFile (hfiles path hs.mem).2 fun _ => rfl
    refine ⟨l, hplace, ?_, Disk.locate_of_place hd hfile hplace⟩
    rw [hdisk]
    refine Disk.locate_of_place hkept.isTree (hkept.isFile hfile) (hkept.place path l hplace) fun target hlink => ?_
    obtain ⟨mode, content, he⟩ := hat
    rw [he] at hlink
    cases hlink

namespace Disk

def unlinked : Disk := linked.put ["p", "b.fusion"] (.file 0o644 (Text.encode "md`1+`"))

theorem replace_linked_b : linked.replace "/p/b.fusion" (Text.encode "md`1+`") = .ok unlinked := by
  have hname : linked.NamesFile ["p"] "b.fusion" ["p", "a.fusion"] := ⟨by decide, ⟨1, leads_linked_b⟩, _, _, rfl⟩
  exact replace_of_namesFile (n := 0) locate_linked_b rfl (by decide) (by decide) (by decide) (leads_package rfl) hname _

theorem locate_unlinked_b : unlinked.locate "/p/b.fusion" = .ok ["p", "b.fusion"] :=
  locate_in rfl rfl (by decide) rfl (by decide) (leads_file (by decide) (by decide) rfl)

end Disk

namespace Explorer

theorem run_linked_b : ∃ o i, (marking.run ⟨"md", none, some "/p/b.fusion", .eject, .full⟩).run
    ⟨.linked, {}, Text.encode "yes"⟩ = (.ok ⟨.eject, "md", 1, ["/p/b.fusion"]⟩, ⟨.unlinked, o, i⟩) := by
  have hpure : ∀ t, marking.registry.resolve "md" = .ok t → t.IsPure := fun _ => isPure_marking
  have hyes : Confirm.Consents (Text.encode "yes") := (Confirm.consents_encode (by decide)).2 (by decide)
  have hfile : Disk.linked.isFile "/p/b.fusion" = true := Disk.isFile_iff.2 ⟨_, Disk.locate_linked_b, _, _, rfl⟩
  have hread : readText .linked "/p/b.fusion" = .ok "md`1`" := readText_of_locate Disk.locate_linked_b rfl rfl
  have hresolve : marking.resolve .linked ⟨"md", none, some "/p/b.fusion", .eject, .full⟩ = .ok ["/p/b.fusion"] :=
    resolve_forFile (q := ⟨"md", none, none, .eject, .full⟩) rfl hfile
  have hsmooth : (marking.surroundings "/p/b.fusion").IsSmooth .linked "/p/b.fusion" :=
    Disk.isSmooth_linked (.inr rfl) rfl rfl (by decide) rfl
  have hhandle : marking.handle ⟨"md", none, some "/p/b.fusion", .eject, .full⟩ .linked "/p/b.fusion" =
      (.ok (some ⟨"/p/b.fusion", "md`1`", "md`1+`"⟩), .unlinked) :=
    handle_of_persist rfl hread (expand_marking .linked) rfl (hsmooth.run_persist Disk.replace_linked_b)
  have hrun := run_of_handles (o := {}) hpure hresolve (fun _ => hyes) (.cons hhandle (.nil .unlinked)) rfl
  exact ⟨_, _, hrun⟩

end Explorer

/-- The run on a link replaces it: the path leads to another place, and what it led to keeps its text. -/
theorem link_gives_way :
    Disk.linked.IsTree ∧ (∀ t, Explorer.marking.registry.resolve "md" = .ok t → t.IsPure) ∧
      Disk.linked.entry? ["p", "b.fusion"] = some (.link "a.fusion") ∧
      Disk.linked.locate "/p/b.fusion" = .ok ["p", "a.fusion"] ∧
      ∃ w, (Explorer.marking.run ⟨"md", none, some "/p/b.fusion", .eject, .full⟩).run
          ⟨.linked, {}, Text.encode "yes"⟩ = (.ok ⟨.eject, "md", 1, ["/p/b.fusion"]⟩, w) ∧
        w.disk.entry? ["p", "b.fusion"] = some (.file 0o644 (Text.encode "md`1+`")) ∧
        w.disk.entry? ["p", "a.fusion"] = some (.file 0o644 (Text.encode "md`1`")) ∧
        w.disk.locate "/p/b.fusion" = .ok ["p", "b.fusion"] := by
  obtain ⟨o, i, hrun⟩ := Explorer.run_linked_b
  exact ⟨Disk.isTree_linked, fun _ => Explorer.isPure_marking, rfl, Disk.locate_linked_b, _, hrun, rfl, rfl,
    Disk.locate_unlinked_b⟩

theorem linked_entries_kept : ∃ w, (Explorer.marking.run ⟨"md", none, some "/p/b.fusion", .eject, .full⟩).run
        ⟨.linked, {}, Text.encode "yes"⟩ = (.ok ⟨.eject, "md", 1, ["/p/b.fusion"]⟩, w) ∧
      w.disk.entry? ["p"] = some (.directory 0o755) ∧
      (∃ new, w.disk.entry? ["p", "a.fusion"] = some (.file 0o644 new)) ∧
      ∃ l, Disk.linked.place "/p/b.fusion" = .ok l ∧ w.disk.locate "/p/b.fusion" = .ok l := by
  have hnamed : Disk.linked.IsNamed := by decide
  obtain ⟨o, i, hrun⟩ := Explorer.run_linked_b
  obtain ⟨-, -, hdirectory, -, hfile, -, hreported⟩ := eject_keeps_entries Disk.isTree_linked hnamed rfl
    (fun _ ht => (Explorer.isPure_marking ht).keepsDisk) hrun
  refine ⟨_, hrun, hdirectory _ _ rfl, hfile _ _ _ rfl, ?_⟩
  obtain ⟨l, hplace, hlocate, -⟩ := hreported _ rfl "/p/b.fusion" (by simp)
  exact ⟨l, hplace, hlocate⟩

end Inlay
