import Inlay.Proofs.Batch

namespace Inlay

theorem Registry.changed_iff_of_expand {r : Registry} {buffer target : String} {d d' : Disk} {e : Expansion}
    (h : (r.expand buffer target).run d = (.ok e, d')) : e.changed = true ↔ sitesOf target buffer ≠ [] := by
  obtain ⟨t, parts, -, hrun, rfl⟩ := parts_of_expand h
  have hparts := forall₂_of_mapM (fun _ _ _ _ => Expansion.answers_of_ask) hrun
  have hspan := Expansion.map_span_records hparts 0
  rw [String.ofList_toList] at hspan
  have hrecords : Expansion.records 0 parts = [] ↔ sitesOf target buffer = [] := by
    rw [← List.map_eq_nil_iff (f := Replacement.span), hspan, List.map_eq_nil_iff]
    rfl
  rw [Expansion.changed, Bool.not_eq_true', List.isEmpty_eq_false_iff]
  exact not_congr hrecords

namespace Preview

def hasSite (dsl : String) (s : Preview) : Bool := !(sitesOf dsl s.before).isEmpty

def block (s : Preview) (p : Presenter) (q : Request) : String :=
  match q.mode, q.presentation with
  | .simulate, .diff => Message.simulated q.dsl s.file ++ p.diff s.before s.after
  | .simulate, .full => Message.simulated q.dsl s.file ++ s.after
  | .eject, .diff => Message.ejected q.dsl s.file ++ "\n" ++ p.diff s.before s.after
  | .eject, .full => Message.ejected q.dsl s.file

end Preview

namespace Explorer

variable {x : Explorer} {q : Request} {d d₁ d' : Disk} {files : List Path} {shown : List Preview}

/-- One file has its turn: its text is read and expanded. An eject replaces the file if the text has a
call-site; nothing else happens to the disk. -/
structure Turn (x : Explorer) (q : Request) (d : Disk) (s : Preview) (d' : Disk) : Prop where
  read : readText d s.file = .ok s.before
  expand : ∃ e, (∀ d, (x.registry.expand s.before q.dsl).run d = (.ok e, d)) ∧ s.after = e.content
  write : q.mode = .eject → s.hasSite q.dsl = true → d.replace s.file (Text.encode s.after) = .ok d'
  keep : q.mode = .simulate ∨ s.hasSite q.dsl = false → d' = d

/-- Turn after turn, each on the disk that the one before has left. -/
inductive Turns (x : Explorer) (q : Request) : Disk → List Preview → Disk → Prop
  | nil (d : Disk) : Turns x q d [] d
  | cons {d d₁ d' : Disk} {s : Preview} {turns : List Preview} (hfirst : Turn x q d s d₁)
      (hrest : Turns x q d₁ turns d') : Turns x q d (s :: turns) d'

theorem encode_block (s : Preview) : (x.texts q s).flatMap Text.encode = Text.encode (s.block x.presenter q) := by
  unfold texts Preview.block
  cases q.mode <;> cases q.presentation <;> simp [Text.encode_append, Presenter.render]

theorem shownBytes_eq (shown : List Preview) :
    x.shownBytes q shown = shown.flatMap fun s => Text.encode (s.block x.presenter q) := by
  rw [shownBytes, List.flatMap_assoc]
  exact List.flatMap_congr fun s _ => encode_block s

theorem eq_of_handle_of_simulate (hq : q.mode = .simulate) {file : Path} {found : Option Preview}
    (h : x.handle q d file = (.ok found, d₁)) : d₁ = d := by
  obtain ⟨-, rfl | ⟨s, -, heject, -⟩⟩ := handle_cases h
  · rfl
  · rw [hq] at heject
    cases heject

theorem replace_of_handle_of_eject (hq : q.mode = .eject) {file : Path} {s : Preview}
    (h : x.handle q d file = (.ok (some s), d₁)) : d.replace s.file (Text.encode s.after) = .ok d₁ := by
  have hpreview := (handle_cases h).1
  simp only [handle, hpreview, hq] at h
  obtain ⟨cause, d₂, hpersist, -⟩ | ⟨d₂, hreplace, hpersist⟩ :=
    run_persist_cases (x.surroundings s.file) s.file s.after d
  · rw [hpersist] at h
    cases h
  · rw [hpersist] at h
    cases h
    exact hreplace

section Pure

variable (hpure : ∀ t, x.registry.resolve q.dsl = .ok t → t.IsPure)
include hpure

theorem exists_expansion_of_preview_ok {file : Path} {found : Option Preview}
    (h : x.preview d q.dsl file = .ok found) :
    ∃ text e, readText d file = .ok text ∧ (∀ d, (x.registry.expand text q.dsl).run d = (.ok e, d)) ∧
      found = if e.changed then some ⟨file, text, e.content⟩ else none := by
  unfold preview at h
  split at h
  · cases h
  · next text hread =>
      obtain ⟨result, hresult⟩ := Registry.expand_steady hpure text
      rw [hresult] at h
      cases result with
      | error e => cases h
      | ok e => exact ⟨text, e, hread, hresult, (Except.ok.inj h).symm⟩

theorem exists_turn_of_handle {file : Path} {found : Option Preview} (h : x.handle q d file = (.ok found, d₁)) :
    ∃ s, s.file = file ∧ Turn x q d s d₁ ∧ found.toList = [s].filter (·.hasSite q.dsl) := by
  obtain ⟨text, e, hread, hexpand, rfl⟩ := exists_expansion_of_preview_ok hpure (handle_cases h).1
  have hsite : Preview.hasSite q.dsl ⟨file, text, e.content⟩ = e.changed := by
    rw [Bool.eq_iff_iff, Registry.changed_iff_of_expand (hexpand d)]
    simp [Preview.hasSite]
  refine ⟨⟨file, text, e.content⟩, rfl, ⟨hread, ⟨e, hexpand, rfl⟩, fun hq hs => ?_, fun hkeep => ?_⟩, ?_⟩
  · rw [← hsite, hs] at h
    exact replace_of_handle_of_eject hq h
  · obtain hq | hs := hkeep
    · exact eq_of_handle_of_simulate hq h
    · rw [← hsite, hs] at h
      exact eq_of_handle_none h
  · rw [← hsite, List.filter_singleton]
    cases Preview.hasSite q.dsl ⟨file, text, e.content⟩ <;> rfl

theorem Handles.exists_turns (h : Handles x q d files shown d') :
    ∃ turns, turns.map (·.file) = files ∧ Turns x q d turns d' ∧ shown = turns.filter (·.hasSite q.dsl) := by
  induction h with
  | nil d => exact ⟨[], rfl, .nil d, rfl⟩
  | @cons d d₁ d' file found files shown hfile _ ih =>
      obtain ⟨s, rfl, hturn, hfound⟩ := exists_turn_of_handle hpure hfile
      obtain ⟨turns, rfl, hturns, rfl⟩ := ih
      refine ⟨s :: turns, rfl, .cons hturn hturns, ?_⟩
      rw [hfound, ← List.filter_append, List.singleton_append]

end Pure

theorem consents_of_run_ok {w w' : World} {report : Report} (hfiles : x.resolve w.disk q = .ok files)
    (h : (x.run q).run w = (.ok report, w')) : q.mode = .eject → Confirm.Consents w.input := by
  intro hq
  by_contra hno
  obtain ⟨e, w₁, hconfirm, -⟩ := run_confirm_of_not_consents q.dsl hno
  have hgate : (gate q).run w = (.error e, w₁) := by rw [gate, if_pos hq, hconfirm]
  rw [run_of_resolve_ok hfiles, run_bind_of_error hgate] at h
  cases h

end Explorer

/-- A run that succeeds on an output that never fails: all files of the request have their turns. The
report counts them and lists those whose text, as read in its turn, has a call-site; after the question of
an eject the output is a block for each file listed. -/
theorem report_accounts_for_files {x : Explorer} {q : Request} {d : Disk} {o i : Bytes} {report : Report} {w : World}
    (hpure : ∀ t, x.registry.resolve q.dsl = .ok t → t.IsPure)
    (h : (x.run q).run ⟨d, ⟨o, none⟩, i⟩ = (.ok report, w)) :
    ∃ files turns, x.resolve d q = .ok files ∧ turns.map (·.file) = files ∧ x.Turns q d turns w.disk ∧
      report.mode = q.mode ∧ report.dsl = q.dsl ∧ report.filesScanned = files.length ∧
      report.changedFiles = (turns.filter (·.hasSite q.dsl)).map (·.file) ∧
      w.output = ⟨o ++ q.opening ++
        (turns.filter (·.hasSite q.dsl)).flatMap fun s => Text.encode (s.block x.presenter q), none⟩ := by
  cases hfiles : x.resolve d q with
  | error e =>
      rw [Explorer.run_of_resolve_error (w := ⟨d, ⟨o, none⟩, i⟩) hfiles] at h
      cases h
  | ok files =>
      have hyes := Explorer.consents_of_run_ok (w := ⟨d, ⟨o, none⟩, i⟩) hfiles h
      obtain ⟨shown, d', hall⟩ | ⟨done, file, later, shown, d₁, e, d₂, rfl, hdone, hfile⟩ :=
        Explorer.exists_handles x q d files
      · rw [Explorer.run_of_handles hpure hfiles hyes hall rfl] at h
        obtain ⟨turns, hturns, hcourse, rfl⟩ := hall.exists_turns hpure
        cases h
        refine ⟨files, turns, rfl, hturns, hcourse, rfl, rfl, rfl, rfl, ?_⟩
        rw [Explorer.shownBytes_eq, Output.append, List.append_assoc]
      · rw [Explorer.run_of_handle_error hpure hfiles hyes hdone hfile rfl] at h
        cases h

namespace Explorer

def restating : Explorer :=
  { registry := ⟨Table.empty.insert "md" (.ofTemplate "md`{code}`" .none)⟩
    packages := ⟨Table.empty.insert "p" "/p", [], []⟩
    surroundings := fun _ => .willing "t" }

theorem isPure_restating {t : Transpiler} (h : restating.registry.resolve "md" = .ok t) : t.IsPure := by
  cases h
  exact Transpiler.isPure_ofTemplate _ _

theorem files_restating : restating.files .package (.package "p") = .ok ["/p/a.fusion", "/p/b.fusion"] := by
  obtain ⟨hdir, hfusion⟩ := Disk.isDirectory_package (d := .package) rfl
  refine (files_of_configured (x := restating) rfl hdir hfusion).trans ?_
  change listFiles .package "/p/" "fusion" = _
  rw [listFiles, Disk.files_package]

theorem expand_restating (d : Disk) : ((restating.registry.expand "md`1`" "md").run d).1 =
    .ok ⟨"md`1`", [⟨0, 5, "md`1`", "md`1`"⟩]⟩ := by
  rw [Registry.run_expand_ofTemplate rfl]
  exact congrArg Except.ok (by decide +kernel)

theorem handles_restating : Handles restating ⟨"md", some "p", none, .simulate, .full⟩ .package
    ["/p/a.fusion", "/p/b.fusion"] [⟨"/p/a.fusion", "md`1`", "md`1`"⟩] .package := by
  have ha : readText .package "/p/a.fusion" = .ok "md`1`" := readText_of_locate Disk.locate_package_a rfl rfl
  have hb : readText .package "/p/b.fusion" = .ok "b`2`" := readText_of_locate Disk.locate_package_b rfl rfl
  have hskip : ((restating.registry.expand "b`2`" "md").run .package).1 = .ok ⟨"b`2`", []⟩ := by
    rw [Registry.run_expand_ofTemplate rfl]
    decide +kernel
  have hfirst : restating.handle ⟨"md", some "p", none, .simulate, .full⟩ .package "/p/a.fusion" =
      (.ok (some ⟨"/p/a.fusion", "md`1`", "md`1`"⟩), .package) := by
    simp only [handle, preview, ha, expand_restating]
    rfl
  have hsecond : restating.handle ⟨"md", some "p", none, .simulate, .full⟩ .package "/p/b.fusion" =
      (.ok none, .package) := by
    simp only [handle, preview, hb, hskip]
    rfl
  exact .cons hfirst (.cons hsecond (.nil .package))

end Explorer

/-- A file whose text stays the same is reported and shown; the file without a call-site is only counted. -/
theorem restated_file_is_reported : ∃ (s : Preview) (turns : List Preview) (w : World),
    (Explorer.restating.run ⟨"md", some "p", none, .simulate, .full⟩).run ⟨.package, {}, []⟩ =
        (.ok ⟨.simulate, "md", 2, ["/p/a.fusion"]⟩, w) ∧
      w.output = ⟨Text.encode (Message.simulated "md" "/p/a.fusion" ++ "md`1`"), none⟩ ∧
      Explorer.restating.Turns ⟨"md", some "p", none, .simulate, .full⟩ .package (s :: turns) w.disk ∧
      [("/p/a.fusion" : Path)] = ((s :: turns).filter (·.hasSite "md")).map (·.file) ∧
      s = ⟨"/p/a.fusion", "md`1`", "md`1`"⟩ := by
  have hpure : ∀ t, Explorer.restating.registry.resolve "md" = .ok t → t.IsPure := fun _ => Explorer.isPure_restating
  have hresolve : Explorer.restating.resolve .package ⟨"md", some "p", none, .simulate, .full⟩ =
      .ok ["/p/a.fusion", "/p/b.fusion"] := (Explorer.resolve_eq_ok rfl).2 ⟨rfl, Explorer.files_restating⟩
  have hrun := Explorer.run_of_handles (o := {}) (i := []) hpure hresolve nofun Explorer.handles_restating rfl
  obtain ⟨files, turns, hfiles, hturns, hcourse, -, -, -, hchanged, -⟩ := report_accounts_for_files hpure hrun
  obtain rfl : _ = files := Except.ok.inj (hresolve.symm.trans hfiles)
  obtain ⟨s, turns, rfl, hs, -⟩ := List.map_eq_cons_iff.1 hturns
  refine ⟨s, turns, _, hrun, ?_, hcourse, hchanged, ?_⟩
  · rw [Explorer.shownBytes_eq]
    rfl
  · cases hcourse with
    | cons hfirst _ =>
        obtain ⟨file, before, after⟩ := s
        obtain rfl : file = "/p/a.fusion" := hs
        have hbefore : .ok before = (.ok "md`1`" : Except Error String) :=
          hfirst.read.symm.trans (Explorer.readText_of_locate Disk.locate_package_a rfl rfl)
        cases hbefore
        obtain ⟨e, hexpand, rfl⟩ := hfirst.expand
        have he : .ok e = (.ok ⟨"md`1`", [⟨0, 5, "md`1`", "md`1`"⟩]⟩ : Except Error Expansion) :=
          (congrArg Prod.fst (hexpand .package)).symm.trans (Explorer.expand_restating .package)
        cases he
        rfl

end Inlay
