import Inlay.Proofs.Preview

namespace Inlay

def Request.inMode (q : Request) (mode : Mode) (p : Presentation) : Request :=
  { q with mode := mode, presentation := p }

namespace Explorer

variable {x : Explorer} {q : Request} {d : Disk} {w w₁ w₂ : World}

theorem run_gate_of_simulate (hq : q.mode = .simulate) (w : World) : (gate q).run w = (.ok (), w) := by
  rw [gate, hq]
  rfl

theorem run_gate_of_eject (hq : q.mode = .eject) {i : Bytes} (hyes : Confirm.Consents i) (d : Disk) (o : Bytes) :
    (gate q).run ⟨d, ⟨o, none⟩, i⟩ =
      (.ok (), ⟨d, ⟨o ++ Text.encode (Message.prompt q.dsl), none⟩, (Confirm.cutLine i).2⟩) := by
  rw [gate, if_pos hq]
  exact run_confirm_of_consents rfl hyes

theorem run_of_processFiles {files changed : List Path} (hfiles : x.resolve w.disk q = .ok files)
    (hgate : (gate q).run w = (.ok (), w₁)) (hrun : (x.processFiles q files).run w₁ = (.ok changed, w₂)) :
    (x.run q).run w = (.ok ⟨q.mode, q.dsl, files.length, changed⟩, w₂) := by
  rw [run_of_resolve_ok hfiles, run_bind_of_ok hgate, run_bind_of_ok hrun]
  rfl

/-- The run passes over the files `done` and fails with `e` at the next one. -/
def StopsAt (x : Explorer) (q : Request) (w : World) (done : List Path) (file : Path) (e : Error) : Prop :=
  ∃ rest changed w₁ w₂ w₃, x.resolve w.disk q = .ok (done ++ file :: rest) ∧
    (gate q).run w = (.ok (), w₁) ∧ (x.processFiles q done).run w₁ = (.ok changed, w₂) ∧
    (x.processFile q file).run w₂ = (.error e, w₃)

theorem run_processFiles_of_stop {done rest changed : List Path} {file : Path} {w₃ : World} {e : Error}
    (hdone : (x.processFiles q done).run w₁ = (.ok changed, w₂))
    (hfile : (x.processFile q file).run w₂ = (.error e, w₃)) :
    (x.processFiles q (done ++ file :: rest)).run w₁ = (.error e, w₃) := by
  induction done generalizing changed w₁ with
  | nil =>
      cases hdone
      exact run_bind_of_error hfile
  | cons f done ih =>
      obtain ⟨c, w', hc, hdone⟩ := of_run_bind_ok hdone
      obtain ⟨cs, w'', hcs, hdone⟩ := of_run_bind_ok hdone
      cases hdone
      rw [List.cons_append, processFiles, run_bind_of_ok hc]
      exact run_bind_of_error (ih hcs)

theorem StopsAt.run_eq_error {done : List Path} {file : Path} {e : Error} (h : x.StopsAt q w done file e) :
    ((x.run q).run w).1 = .error e := by
  obtain ⟨rest, changed, w₁, w₂, w₃, hfiles, hgate, hdone, hfile⟩ := h
  rw [run_of_resolve_ok hfiles, run_bind_of_ok hgate,
    run_bind_of_error (run_processFiles_of_stop hdone hfile)]

/-- Both runs fail with the same error: the files cannot be found, or processing stops at the same
file. -/
def FailAlike (x : Explorer) (q q' : Request) (w w' : World) : Prop :=
  ∃ e, ((x.run q).run w).1 = .error e ∧ ((x.run q').run w').1 = .error e ∧
    (x.resolve w.disk q = .error e ∧ x.resolve w'.disk q' = .error e ∨
      ∃ done file, x.StopsAt q w done file e ∧ x.StopsAt q' w' done file e)

theorem apart_of_resolve {files : List Path} (hfiles : x.resolve d q = .ok files)
    (hapart : ∀ key, q.target = .ok (.package key) → x.files d (.package key) = .ok files → d.Apart files) :
    d.Apart files := by
  unfold resolve at hfiles
  split at hfiles
  · cases hfiles
  · cases htarget : q.target with
    | error e =>
        rw [htarget] at hfiles
        cases hfiles
    | ok target =>
        rw [htarget] at hfiles
        cases target with
        | package key => exact hapart key htarget hfiles
        | file path =>
            change (if d.isFile path then .ok [path] else .error (.fileNotFound path) : Except Error _) = _ at hfiles
            split at hfiles
            · next hfile =>
                cases hfiles
                exact Disk.apart_singleton hfile
            · cases hfiles

end Explorer

/-- On a tree, with transpilers that look at nothing but the code, with paths to different files and siblings
that can be made, a confirmed eject does what the simulation shows: they fail alike, or they report the same files, show
the same changes, and the eject leaves in each of these files what the simulation shows of it in full. -/
theorem eject_writes_what_simulate_shows {x : Explorer} {q : Request} {d : Disk} {o o' i i' : Bytes}
    (hd : d.IsTree) (hpure : ∀ t, x.registry.resolve q.dsl = .ok t → t.IsPure)
    (hapart : ∀ key files, q.target = .ok (.package key) → x.files d (.package key) = .ok files → d.Apart files)
    (hsmooth : ∀ files, x.resolve d q = .ok files → ∀ f ∈ files, (x.surroundings f).IsSmooth d f)
    (hyes : Confirm.Consents i') :
    (∀ p p', x.FailAlike (q.inMode .simulate p) (q.inMode .eject p') ⟨d, ⟨o, none⟩, i⟩ ⟨d, ⟨o', none⟩, i'⟩) ∨
      ∃ (files : List Path) (shown : List Preview) (d' : Disk), x.resolve d q = .ok files ∧
        (∀ p, (x.run (q.inMode .simulate p)).run ⟨d, ⟨o, none⟩, i⟩ =
          (.ok ⟨.simulate, q.dsl, files.length, shown.map (·.file)⟩,
            ⟨d, ⟨o ++ shown.flatMap fun s => Text.encode (s.simulated x q.dsl p), none⟩, i⟩)) ∧
        (∀ p, (x.run (q.inMode .eject p)).run ⟨d, ⟨o', none⟩, i'⟩ =
          (.ok ⟨.eject, q.dsl, files.length, shown.map (·.file)⟩,
            ⟨d', ⟨o' ++ Text.encode (Message.prompt q.dsl) ++
              shown.flatMap fun s => Text.encode (s.ejected x q.dsl p), none⟩, (Confirm.cutLine i').2⟩)) ∧
        (∀ s ∈ shown, readText d s.file = .ok s.before ∧
          d'.read s.file = .ok (Text.encode (x.presenter.render s.before s.after .full))) ∧
        ∀ f ∈ files, f ∉ shown.map (·.file) → d'.read f = d.read f := by
  have hgate (p : Presentation) := Explorer.run_gate_of_simulate (q := q.inMode .simulate p) rfl ⟨d, ⟨o, none⟩, i⟩
  have hgate' (p : Presentation) := Explorer.run_gate_of_eject (q := q.inMode .eject p) rfl hyes d o'
  cases hfiles : x.resolve d q with
  | error e =>
      have hfails (mode : Mode) (p : Presentation) (w : World) (hw : w.disk = d) :
          ((x.run (q.inMode mode p)).run w).1 = .error e := by
        subst hw
        rw [Explorer.run_of_resolve_error (q := q.inMode mode p) hfiles]
      exact .inl fun p p' => ⟨e, hfails _ p _ rfl, hfails _ p' _ rfl, .inl ⟨hfiles, hfiles⟩⟩
  | ok files =>
      have hfilesApart := Explorer.apart_of_resolve hfiles fun key => hapart key files
      cases hshown : x.previews d q.dsl files with
      | ok shown =>
          obtain ⟨d', hwritten, heject⟩ :=
            Explorer.run_processFiles_of_eject hpure hd hfilesApart (hsmooth files hfiles) hshown
          refine .inr ⟨files, shown, d', rfl, fun p => ?_, fun p => ?_, fun s hs => ⟨?_, hwritten.of_shown s hs⟩,
            hwritten.of_not_shown⟩
          · exact Explorer.run_of_processFiles (q := q.inMode .simulate p) hfiles (hgate p)
              (Explorer.run_processFiles_of_simulate hpure hshown (q.inMode .simulate p) o i rfl rfl)
          · exact Explorer.run_of_processFiles (q := q.inMode .eject p) hfiles (hgate' p)
              (heject (q.inMode .eject p) _ _ rfl rfl)
          · exact Explorer.readText_of_mem_previews hshown hs
      | error e =>
          obtain ⟨done, file, rest, shown, rfl, hdone, hfile⟩ := Explorer.exists_of_previews_eq_error hshown
          obtain ⟨d', hwritten, heject⟩ := Explorer.run_processFiles_of_eject hpure hd hfilesApart.of_append
            (fun f hf => hsmooth _ hfiles f (List.mem_append_left _ hf)) hdone
          have hstat : d'.stat file = d.stat file := by
            refine hwritten.of_apart file (hfilesApart.1 file (by simp)) fun f hf => ?_
            exact ((List.pairwise_append.1 hfilesApart.2).2.2 f hf file List.mem_cons_self).symm
          have hfile' : x.preview d' q.dsl file = .error e := by
            rw [Explorer.preview_congr hpure (Disk.read_congr hwritten.privileged hstat), hfile]
          refine .inl fun p p' => ?_
          have hstops : x.StopsAt (q.inMode .simulate p) ⟨d, ⟨o, none⟩, i⟩ done file e :=
            ⟨rest, _, _, _, _, hfiles, hgate p,
              Explorer.run_processFiles_of_simulate hpure hdone (q.inMode .simulate p) o i rfl rfl,
              Explorer.run_processFile_of_fault (q := q.inMode .simulate p) hpure hfile _ i⟩
          have hstops' : x.StopsAt (q.inMode .eject p') ⟨d, ⟨o', none⟩, i'⟩ done file e :=
            ⟨rest, _, _, _, _, hfiles, hgate' p', heject (q.inMode .eject p') _ _ rfl rfl,
              Explorer.run_processFile_of_fault (q := q.inMode .eject p') hpure hfile' _ _⟩
          exact ⟨e, hstops.run_eq_error, hstops'.run_eq_error, .inr ⟨done, file, hstops, hstops'⟩⟩

namespace Disk

theorem isTree_package : package.IsTree := isTree_of_keys (by decide) (by decide)

section Package

variable {d : Disk} {path name : Path} {m n : Nat} {l : Location}

theorem leads_package (hp : d.entry? ["p"] = some (.directory m)) : Leads d 0 [] ["p"] ["p"] :=
  .of_move (admits_root d "p") (.enter (by decide) hp nofun)

theorem leads_file {content : Bytes} (hp : d.Admits ["p"] name) (hname : IsName name)
    (he : d.entry? ["p", name] = some (.file m content)) : Leads d 0 ["p"] [name] ["p", name] :=
  .of_move hp (.enter hname he nofun)

theorem locate_in (htext : checkPath path = .ok ()) (hstart : d.start path = [])
    (hsteps : Path.steps path = [("p" : Path), name]) (hp : d.entry? ["p"] = some (.directory m)) (hn : n ≤ maxLinks)
    (hname : Leads d n ["p"] [name] l) : d.locate path = .ok l := by
  refine locate_eq_ok.2 ⟨htext, 0 + n, by omega, ?_⟩
  rw [hstart, hsteps]
  exact (leads_package hp).append hname

theorem locate_package_slash (hp : d.entry? ["p"] = some (.directory m)) : d.locate "/p/" = .ok ["p"] := by
  have hdir : d.Admits ["p"] [] := ⟨by rw [isDirectoryAt, hp]; rfl, absurd rfl⟩
  exact locate_in rfl rfl (by decide) hp (Nat.zero_le _) (.of_move hdir (.stay (.inr rfl)))

end Package

theorem isDirectory_package {d : Disk} {mode : Nat} (hp : d.entry? ["p"] = some (.directory mode)) :
    d.isDirectory "/p" ∧ d.isDirectory "/p/" := by
  have hlocate : d.locate "/p" = .ok ["p"] := locate_eq_ok.2 ⟨rfl, 0, by decide, leads_package hp⟩
  have hdir : d.isDirectoryAt ["p"] := by
    rw [isDirectoryAt, hp]
    rfl
  exact ⟨(isDirectory_of_locate hlocate).trans hdir, (isDirectory_of_locate (locate_package_slash hp)).trans hdir⟩

theorem locate_package : package.locate "/p/" = .ok ["p"] := locate_package_slash rfl

theorem locate_package_a : package.locate "/p/a.fusion" = .ok ["p", "a.fusion"] :=
  locate_in rfl rfl (by decide) rfl (Nat.zero_le _) (leads_file (by decide) (by decide) rfl)

theorem locate_package_b : package.locate "/p/b.fusion" = .ok ["p", "b.fusion"] :=
  locate_in rfl rfl (by decide) rfl (Nat.zero_le _) (leads_file (by decide) (by decide) rfl)

theorem apart_package : package.Apart ["/p/a.fusion", "/p/b.fusion"] := by
  refine ⟨?_, List.pairwise_pair.2 ?_⟩
  · intro f hf
    rcases List.mem_pair.1 hf with rfl | rfl
    · exact isFile_iff.2 ⟨_, locate_package_a, _, _, rfl⟩
    · exact isFile_iff.2 ⟨_, locate_package_b, _, _, rfl⟩
  · rw [locate_package_a, locate_package_b]
    exact nofun

theorem files_package : package.files "/p/" "fusion" = .ok ["/p/a.fusion", "/p/b.fusion"] := by
  have hgrants : package.grantsAt .read ["p"] = true := by decide
  have hread : package.readDirectory "/p/" = .ok ["p"] := readDirectory_eq_ok.2 ⟨locate_package, hgrants⟩
  rw [files, locate_package]
  dsimp only
  rw [if_pos (by decide), if_neg (by simp [hgrants]), visit_of_files hread]
  · rfl
  · decide

end Disk

namespace Explorer

theorem files_of_configured {x : Explorer} {key : String} {path : Path}
    (hpath : x.packages.paths.get? key = some path) (hdir : d.isDirectory path)
    (hfusion : d.isDirectory (Path.join path x.packages.fusionPath)) :
    x.files d (.package key) = listFiles d (Path.join path x.packages.fusionPath) x.fileExtension := by
  have hconfigured : x.packages.configured? d key = some path := by
    rw [Packages.configured?, hpath, Option.filter_some, if_pos hdir]
  have hdirectory : x.packages.fusionDirectory d key = .ok (Path.join path x.packages.fusionPath) := by
    rw [Packages.fusionDirectory, Packages.path?, hconfigured]
    exact if_pos hfusion
  rw [files, hdirectory]
  rfl

theorem files_brackets : brackets.files .package (.package "p") = .ok ["/p/a.fusion", "/p/b.fusion"] := by
  obtain ⟨hdir, hfusion⟩ := Disk.isDirectory_package (d := .package) rfl
  refine (files_of_configured (x := brackets) rfl hdir hfusion).trans ?_
  change listFiles .package "/p/" "fusion" = _
  rw [listFiles, Disk.files_package]

theorem readText_of_locate {file : Path} {text : String} {l : Location} {mode : Nat} (hl : d.locate file = .ok l)
    (he : d.entry? l = some (.file mode (Text.encode text)))
    (hgrants : d.grants .read (.file mode (Text.encode text)) = true) : readText d file = .ok text := by
  have hread : d.read file = .ok (Text.encode text) :=
    Disk.read_eq_ok.2 ⟨_, Disk.stat_eq_ok.2 ⟨l, hl, he⟩, hgrants, .inl ⟨mode, rfl⟩⟩
  rw [readText, hread]
  dsimp only
  rw [Text.decode?_encode]

theorem previews_brackets : brackets.previews .package "md" ["/p/a.fusion", "/p/b.fusion"] =
    .ok [⟨"/p/a.fusion", "md`1`", "[1]"⟩] := by
  have ha : readText .package "/p/a.fusion" = .ok "md`1`" := readText_of_locate Disk.locate_package_a rfl rfl
  have hb : readText .package "/p/b.fusion" = .ok "b`2`" := readText_of_locate Disk.locate_package_b rfl rfl
  have hexpand : ((brackets.registry.expand "md`1`" "md").run .package).1 =
      .ok ⟨"[1]", [⟨0, 5, "md`1`", "[1]"⟩]⟩ := by
    rw [Registry.run_expand_ofTemplate rfl]
    decide +kernel
  have hskip : ((brackets.registry.expand "b`2`" "md").run .package).1 = .ok ⟨"b`2`", []⟩ := by
    rw [Registry.run_expand_ofTemplate rfl]
    decide +kernel
  simp only [previews, preview, ha, hb, hexpand, hskip]
  rfl

end Explorer

theorem Explorer.isSmooth_brackets {f : Path} (hf : f ∈ [("/p/a.fusion" : Path), "/p/b.fusion"]) :
    (brackets.surroundings f).IsSmooth .package f := by
  have hplace : Disk.package.place "/p/t" = .ok ["p", "t"] :=
    Disk.place_eq_ok.2 ⟨rfl, by decide, ["p"], "t", ["p"], 0, by decide, by decide, by decide, by decide,
      Disk.leads_package rfl, by decide, by decide, rfl⟩
  have hbase : Path.join (Disk.package.siblingBase f) "t" = "/p/t" := by
    rcases List.mem_pair.1 hf with rfl | rfl
    · decide
    · decide
  exact Disk.Surroundings.isSmooth_willing (hbase ▸ hplace) rfl

theorem eject_brackets : ∃ (s : Preview) (w : World), s.file = "/p/a.fusion" ∧
    (Explorer.brackets.run ⟨"md", some "p", none, .eject, .full⟩).run ⟨.package, {}, Text.encode "yes"⟩ =
      (.ok ⟨.eject, "md", 2, [s.file]⟩, w) ∧
    w.disk.read s.file = .ok (Text.encode s.after) ∧
    w.disk.read "/p/b.fusion" = Disk.package.read "/p/b.fusion" := by
  have hpure : ∀ t, Explorer.brackets.registry.resolve "md" = .ok t → t.IsPure := fun _ => Explorer.isPure_brackets
  have hapart : ∀ key files, Request.target ⟨"md", some "p", none, .simulate, .full⟩ = .ok (.package key) →
      Explorer.brackets.files .package (.package key) = .ok files → Disk.package.Apart files := by
    intro key files hkey hfiles
    cases hkey
    rw [Explorer.files_brackets] at hfiles
    cases hfiles
    exact Disk.apart_package
  have hsmooth : ∀ files, Explorer.brackets.resolve .package ⟨"md", some "p", none, .simulate, .full⟩ = .ok files →
      ∀ f ∈ files, (Explorer.brackets.surroundings f).IsSmooth .package f := by
    intro files hfiles f hf
    obtain rfl : _ = files := Except.ok.inj (Explorer.files_brackets.symm.trans hfiles)
    exact Explorer.isSmooth_brackets hf
  have hyes : Confirm.Consents (Text.encode "yes") := (Confirm.consents_encode (by decide)).2 (by decide)
  have hsimulate : (Explorer.brackets.run ⟨"md", some "p", none, .simulate, .full⟩).run ⟨.package, ⟨[], none⟩, []⟩ = _ :=
    Explorer.run_of_processFiles Explorer.files_brackets (Explorer.run_gate_of_simulate rfl _)
      (Explorer.run_processFiles_of_simulate hpure Explorer.previews_brackets _ [] [] rfl rfl)
  obtain hfail | ⟨files, shown, d', hfiles, hshow, heject, hshown, hkept⟩ :=
    eject_writes_what_simulate_shows (o := []) (i := []) Disk.isTree_package hpure hapart hsmooth hyes
  · obtain ⟨e, he, -⟩ := hfail .full .full
    change ((Explorer.brackets.run ⟨"md", some "p", none, .simulate, .full⟩).run _).1 = _ at he
    rw [hsimulate] at he
    cases he
  · obtain rfl : _ = files := Except.ok.inj (Explorer.files_brackets.symm.trans hfiles)
    have hreport := congrArg Prod.fst (hsimulate.symm.trans (hshow .full))
    obtain ⟨s, rfl, hs⟩ := List.map_eq_singleton_iff.1 (Report.mk.inj (Except.ok.inj hreport)).2.2.2.symm
    have hne : ("/p/b.fusion" : Path) ≠ "/p/a.fusion" := by decide
    exact ⟨s, _, hs, heject .full, (hshown s List.mem_cons_self).2, hkept "/p/b.fusion" (by simp) (by simp [hs, hne])⟩

end Inlay
