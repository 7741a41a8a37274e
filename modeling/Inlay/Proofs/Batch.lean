import Inlay.Proofs.Rewriting
import Inlay.Proofs.Scan

namespace Inlay

namespace Request

def forFile (q : Request) (file : Path) : Request := { q with packageKey := none, fusionFile := some file }

def opening (q : Request) : Bytes := if q.mode = .eject then Text.encode (Message.prompt q.dsl) else []

def unread (q : Request) (input : Bytes) : Bytes := if q.mode = .eject then (Confirm.cutLine input).2 else input

theorem target_forFile (q : Request) {file : Path} (h : file ≠ []) : (q.forFile file).target = .ok (.file file) := by
  have hgiven : (some file).filter (!·.isEmpty) = some file := by simp [Option.filter, h]
  unfold target forFile
  dsimp only
  rw [hgiven]
  rfl

end Request

def Message.announcement (q : Request) (file : Path) : Bytes := Text.encode (Message.ejected q.dsl file)

namespace Explorer

/-- The runs on the single files, one after the other, each with an output and an input of its own: what
each writes after its opening, the files it changes, and the disk at the end. -/
inductive RunsAlone (x : Explorer) (q : Request) (answer : Path → Bytes) :
    Disk → List Path → List (Bytes × List Path) → Disk → Prop
  | nil (d : Disk) : RunsAlone x q answer d [] [] d
  | cons {d d₁ d' : Disk} {file : Path} {files : List Path} {report : Report} {block rest : Bytes}
      {parts : List (Bytes × List Path)}
      (hfile : (x.run (q.forFile file)).run ⟨d, {}, answer file⟩ =
        (.ok report, ⟨d₁, ⟨q.opening ++ block, none⟩, rest⟩))
      (hfiles : RunsAlone x q answer d₁ files parts d') :
      RunsAlone x q answer d (file :: files) ((block, report.changedFiles) :: parts) d'

/-- The run is the runs on all the files: it leaves the same disk, writes what they write, and reports
what they report. -/
def Completes (x : Explorer) (q : Request) (answer : Path → Bytes) (w : World) (files : List Path) : Prop :=
  ∃ parts d', RunsAlone x q answer w.disk files parts d' ∧
    (x.run q).run w =
      (.ok ⟨q.mode, q.dsl, files.length, parts.flatMap (·.2)⟩,
        ⟨d', w.output.append (q.opening ++ parts.flatMap (·.1)), q.unread w.input⟩)

/-- The run on a single file fails as the run on all fails at it. A path that is not followed to its end is no file
for the one, and cannot be read by the other. -/
def SameFault (d : Disk) (file : Path) (alone batch : Error) : Prop :=
  batch = alone ∨ d.IsBarred file ∧ alone = .fileNotFound file ∧
    ∃ cause, d.locate file = .error cause ∧ batch = .readFailure file (.io cause)

/-- The run is the runs on the first files, and fails as the run on the next one does. Nothing is written by that one,
but a sibling that cannot be taken away again. -/
def StopsWith (x : Explorer) (q : Request) (answer : Path → Bytes) (w : World) (files : List Path) : Prop :=
  ∃ done file later parts d₁ d₂ alone batch, files = done ++ file :: later ∧
    RunsAlone x q answer w.disk done parts d₁ ∧
    ((x.run (q.forFile file)).run ⟨d₁, {}, answer file⟩).1 = .error alone ∧
    ((x.run (q.forFile file)).run ⟨d₁, {}, answer file⟩).2.disk = d₂ ∧ (x.surroundings file).Leaves file d₁ d₂ ∧
    SameFault d₁ file alone batch ∧
    (x.run q).run w =
      (.error batch, ⟨d₂, w.output.append (q.opening ++ parts.flatMap (·.1)), q.unread w.input⟩)

/-- The output refuses the question, or a text of a file that has been written. Then all that was
written before is announced, and nothing after it is written. -/
def StopsAtWrite (x : Explorer) (q : Request) (answer : Path → Bytes) (w : World) (files : List Path) : Prop :=
  ∃ w', (x.run q).run w = (.error .outputFull, w') ∧
    (w'.disk = w.disk ∧ w'.output = w.output ∨
      ∃ done file later parts d₁ block kept, files = done ++ file :: later ∧
        RunsAlone x q answer w.disk done parts d₁ ∧ RunsAlone x q answer d₁ [file] [(block, [file])] w'.disk ∧
        w'.output = w.output.append (q.opening ++ parts.flatMap (·.1) ++ kept) ∧ kept <+: block ∧
        (kept = [] ∧ w'.output.accepts (Message.announcement q file) = false ∨
          Message.announcement q file <+: kept) ∧
        ∀ part ∈ parts, ∀ f ∈ part.2, Message.announcement q f <+: part.1)

variable {x : Explorer} {q : Request} {d d₁ d₂ d' : Disk} {o : Output} {i : Bytes} {files done later : List Path}
  {shown : List Preview} {file : Path}

theorem run_gate (hyes : q.mode = .eject → Confirm.Consents i) (ho : o.accepts q.opening = true) (d : Disk) :
    (gate q).run ⟨d, o, i⟩ = (.ok (), ⟨d, o.append q.opening, q.unread i⟩) := by
  unfold Request.opening at ho ⊢
  unfold gate Request.unread
  split
  · next hm =>
      rw [if_pos hm] at ho
      exact run_confirm_of_consents (Output.write_of_accepts ho) (hyes hm)
  · rw [Output.append_nil]
    rfl

theorem run_gate_of_not_accepts (hq : q.mode = .eject) (ho : o.accepts q.opening = false) (d : Disk) (i : Bytes) :
    (gate q).run ⟨d, o, i⟩ = (.error .outputFull, ⟨d, o, i⟩) := by
  rw [Request.opening, if_pos hq] at ho
  rw [gate, if_pos hq, confirm, run_bind_of_error (Step.run_emit_of_not_accepts (w := ⟨d, o, i⟩) ho)]

section Pure

variable (hpure : ∀ t, x.registry.resolve q.dsl = .ok t → t.IsPure)
include hpure

theorem run_of_handles (hfiles : x.resolve d q = .ok files) (hyes : q.mode = .eject → Confirm.Consents i)
    (h : Handles x q d files shown d') (ho : o.accepts (q.opening ++ x.shownBytes q shown) = true) :
    (x.run q).run ⟨d, o, i⟩ =
      (.ok ⟨q.mode, q.dsl, files.length, shown.map (·.file)⟩,
        ⟨d', o.append (q.opening ++ x.shownBytes q shown), q.unread i⟩) := by
  have hshown := h.run_processFiles hpure (o := o.append q.opening) (by rw [Output.accepts_append, ho]) (q.unread i)
  have hgate := run_gate hyes (Output.accepts_of_append ho) d
  rw [run_of_processFiles (w := ⟨d, o, i⟩) hfiles hgate hshown, Output.append_append]

theorem run_of_handle_error (hfiles : x.resolve d q = .ok (done ++ file :: later))
    (hyes : q.mode = .eject → Confirm.Consents i) (h : Handles x q d done shown d₁) {e : Error}
    (hfile : x.handle q d₁ file = (.error e, d₂)) (ho : o.accepts (q.opening ++ x.shownBytes q shown) = true) :
    (x.run q).run ⟨d, o, i⟩ = (.error e, ⟨d₂, o.append (q.opening ++ x.shownBytes q shown), q.unread i⟩) := by
  have hshown := h.run_processFiles hpure (o := o.append q.opening) (by rw [Output.accepts_append, ho]) (q.unread i)
  have hstop : (x.processFile q file).run ⟨d₁, o.append (q.opening ++ x.shownBytes q shown), q.unread i⟩ =
      (.error e, ⟨d₂, o.append (q.opening ++ x.shownBytes q shown), q.unread i⟩) := by
    rw [run_processFile hpure, hfile]
  rw [Output.append_append] at hshown
  rw [run_of_resolve_ok (w := ⟨d, o, i⟩) hfiles,
    run_bind_of_ok (run_gate hyes (Output.accepts_of_append ho) d),
    run_bind_of_error (run_processFiles_of_stop hshown hstop)]

end Pure

theorem isFile_of_locate_error {cause : IoError} (h : d.locate file = .error cause) : d.isFile file = false := by
  unfold Disk.isFile Disk.stat
  rw [h]
  rfl

theorem ne_nil_of_isFile (h : d.isFile file = true) : file ≠ [] := by
  obtain ⟨l, hl, -⟩ := Disk.isFile_iff.1 h
  exact (Disk.checkPath_eq_ok (Disk.locate_eq_ok.1 hl).1).2.1

theorem resolve_of_not_contains (hdsl : x.registry.contains q.dsl = false) (d : Disk) :
    x.resolve d q = .error (.unknownIdentifier q.dsl) := by
  unfold resolve
  rw [hdsl]
  rfl

theorem resolve_forFile (hdsl : x.registry.contains q.dsl = true) (hfile : d.isFile file = true) :
    x.resolve d (q.forFile file) = .ok [file] := by
  refine (resolve_eq_ok (q.target_forFile (ne_nil_of_isFile hfile))).2 ⟨hdsl, ?_⟩
  exact if_pos hfile

theorem run_forFile_of_not_isFile (hdsl : x.registry.contains q.dsl = true) (hne : file ≠ [])
    (hfile : d.isFile file = false) (a : Bytes) :
    (x.run (q.forFile file)).run ⟨d, {}, a⟩ = (.error (.fileNotFound file), ⟨d, {}, a⟩) := by
  refine run_of_resolve_error (w := ⟨d, {}, a⟩) ?_
  have hdsl' : x.registry.contains (q.forFile file).dsl = true := hdsl
  unfold resolve
  rw [hdsl', q.target_forFile hne]
  change (if d.isFile file then .ok [file] else .error (.fileNotFound file) : Except Error (List Path)) = _
  rw [hfile]
  rfl

section Pure

variable (hpure : ∀ t, x.registry.resolve q.dsl = .ok t → t.IsPure)
include hpure

theorem run_forFile_of_handle (hdsl : x.registry.contains q.dsl = true) (hfile : d.isFile file = true)
    {a : Bytes} (hyes : q.mode = .eject → Confirm.Consents a) {s : Option Preview}
    (h : x.handle q d file = (.ok s, d₁)) :
    (x.run (q.forFile file)).run ⟨d, {}, a⟩ =
      (.ok ⟨q.mode, q.dsl, 1, s.toList.map (·.file)⟩,
        ⟨d₁, ⟨q.opening ++ x.shownBytes q s.toList, none⟩, q.unread a⟩) := by
  have hhandles : Handles x (q.forFile file) d [file] (s.toList ++ []) d₁ := .cons h (.nil d₁)
  rw [List.append_nil] at hhandles
  exact run_of_handles (q := q.forFile file) hpure (resolve_forFile hdsl hfile) hyes hhandles rfl

theorem exists_run_forFile_error (hdsl : x.registry.contains q.dsl = true)
    (hfile : d.isFile file = true ∨ file ≠ [] ∧ d.IsBarred file) {a : Bytes}
    (hyes : q.mode = .eject → Confirm.Consents a) {batch : Error} (h : x.handle q d file = (.error batch, d₂)) :
    ∃ alone, ((x.run (q.forFile file)).run ⟨d, {}, a⟩).1 = .error alone ∧
      ((x.run (q.forFile file)).run ⟨d, {}, a⟩).2.disk = d₂ ∧ SameFault d file alone batch := by
  obtain hfile | ⟨hne, hbarred⟩ := hfile
  · have hresolve : x.resolve d (q.forFile file) = .ok ([] ++ [file]) := resolve_forFile hdsl hfile
    have hrun := run_of_handle_error (q := q.forFile file) (o := {}) hpure hresolve hyes (.nil d) h rfl
    rw [hrun]
    exact ⟨batch, rfl, rfl, .inl rfl⟩
  · obtain ⟨cause, -, hlocate⟩ := Disk.isBarred_iff.1 hbarred
    rw [handle_eq_error (preview_of_locate_error hlocate)] at h
    cases h
    rw [run_forFile_of_not_isFile hdsl hne (isFile_of_locate_error hlocate)]
    exact ⟨_, rfl, rfl, .inr ⟨hbarred, rfl, cause, hlocate, rfl⟩⟩

variable {d₀ : Disk} {answer : Path → Bytes} {prior : List Path}

omit hpure in
theorem isListable_of_rewritten (hlist : d₀.IsListable file) (hprior : Rewritten x.registry q.dsl d₀ d prior) :
    d.IsListable file := by
  obtain hfile | ⟨hne, hbarred⟩ := hlist
  · exact .inl (hprior.isFile file hfile)
  · exact .inr ⟨hne, by rwa [Disk.IsBarred, hprior.barred file hbarred]⟩

omit hpure in
theorem isFile_of_handle (hlist : d₀.IsListable file) (hprior : Rewritten x.registry q.dsl d₀ d prior)
    {s : Option Preview} (h : x.handle q d file = (.ok s, d₁)) : d.isFile file = true := by
  refine (isListable_of_rewritten hlist hprior).resolve_right fun ⟨_, hbarred⟩ => ?_
  obtain ⟨cause, -, hlocate⟩ := Disk.isBarred_iff.1 hbarred
  rw [handle_eq_error (preview_of_locate_error hlocate)] at h
  cases h

theorem Handles.runsAlone (answer : Path → Bytes) (hdsl : x.registry.contains q.dsl = true)
    (hlist : ∀ f ∈ files, d₀.IsListable f) (hyes : q.mode = .eject → ∀ f ∈ files, Confirm.Consents (answer f))
    (hprior : Rewritten x.registry q.dsl d₀ d prior) (h : Handles x q d files shown d') :
    ∃ parts, RunsAlone x q answer d files parts d' ∧ parts.flatMap (·.1) = x.shownBytes q shown ∧
      parts.flatMap (·.2) = shown.map (·.file) ∧
      (q.mode = .eject → ∀ part ∈ parts, ∀ f ∈ part.2, Message.announcement q f <+: part.1) := by
  induction h generalizing prior with
  | nil d => exact ⟨[], .nil d, rfl, rfl, fun _ => nofun⟩
  | @cons d d₁ d' file s files shown hfile _ ih =>
      have hisFile := isFile_of_handle (hlist file List.mem_cons_self) hprior hfile
      have halone := run_forFile_of_handle hpure hdsl hisFile (fun hq => hyes hq file List.mem_cons_self) hfile
      obtain ⟨parts, hparts, hbytes, hchanged, hannounced⟩ :=
        ih (fun f hf => hlist f (List.mem_cons_of_mem _ hf)) (fun hq f hf => hyes hq f (List.mem_cons_of_mem _ hf))
          (rewritten_of_handle hpure hprior (hlist file List.mem_cons_self) hfile)
      refine ⟨_, .cons halone hparts, ?_, ?_, fun hq part hpart => ?_⟩
      · rw [List.flatMap_cons, hbytes, shownBytes_append]
      · rw [List.flatMap_cons, hchanged, List.map_append]
      · rcases List.mem_cons.1 hpart with rfl | hpart
        · intro f hf
          cases s with
          | none => cases hf
          | some s =>
              obtain rfl : f = s.file := List.mem_singleton.1 hf
              obtain ⟨more, htexts⟩ := texts_of_eject (x := x) hq s
              rw [shownBytes_some, htexts, List.flatMap_cons]
              exact List.prefix_append _ _
        · exact hannounced hq part hpart

theorem stopsAtWrite_of_not_accepts (hq : q.mode = .eject) (hd : d.IsTree)
    (hlist : ∀ f ∈ done ++ later, d.IsListable f) (hfiles : x.resolve d q = .ok (done ++ later))
    (hdsl : x.registry.contains q.dsl = true) (hyes : Confirm.Consents i)
    (hyes' : ∀ f ∈ done ++ later, Confirm.Consents (answer f)) (h : Handles x q d done shown d')
    (ho : o.accepts (q.opening ++ x.shownBytes q shown) = false) :
    StopsAtWrite x q answer ⟨d, o, i⟩ (done ++ later) := by
  cases hopening : o.accepts q.opening with
  | false =>
      refine ⟨⟨d, o, i⟩, ?_, .inl ⟨rfl, rfl⟩⟩
      rw [run_of_resolve_ok (w := ⟨d, o, i⟩) hfiles, run_bind_of_error (run_gate_of_not_accepts hq hopening d i)]
  | true =>
      obtain ⟨before, s, rest, shown₁, d₁, d₂, written, text, unwritten, rfl, hbefore, hfile, htexts, hfull, hrun⟩ :=
        h.exists_refused (o := o.append q.opening) hpure (by rw [Output.accepts_append, List.append_nil, hopening])
          (by rw [Output.accepts_append, ho]) later (q.unread i)
      have hmem : ∀ f ∈ before ++ [s.file], f ∈ before ++ s.file :: rest ++ later := by
        intro f hf
        simp only [List.mem_append, List.mem_cons, List.not_mem_nil, or_false] at hf ⊢
        tauto
      have hlistBefore : ∀ f ∈ before, d.IsListable f := fun f hf =>
        hlist f (hmem f (List.mem_append_left _ hf))
      have hprior := hbefore.rewritten hpure hlistBefore (.nil hd)
      obtain ⟨parts, hparts, hbytes, -, hannounced⟩ := hbefore.runsAlone hpure answer hdsl hlistBefore
        (fun _ f hf => hyes' f (hmem f (List.mem_append_left _ hf))) (.nil hd)
      have hisFile := isFile_of_handle (hlist s.file (hmem s.file (by simp))) hprior hfile
      have halone := run_forFile_of_handle hpure hdsl hisFile (fun _ => hyes' s.file (hmem s.file (by simp))) hfile
      rw [shownBytes_some, htexts, List.flatMap_append] at halone
      have hrun' : (x.run q).run ⟨d, o, i⟩ = _ := (run_of_resolve_ok (w := ⟨d, o, i⟩) hfiles).trans <|
        (run_bind_of_ok (run_gate (fun _ => hyes) hopening d)).trans (run_bind_of_error hrun)
      refine ⟨_, hrun', .inr ⟨before, s.file, rest ++ later, parts, d₁, _, written.flatMap Text.encode, by simp, hparts,
        .cons halone (.nil d₂), ?_, List.prefix_append _ _, ?_, hannounced hq⟩⟩
      · rw [Output.append_append, hbytes, List.append_assoc]
      · obtain ⟨more, hmore⟩ := texts_of_eject (x := x) hq s
        rw [hmore] at htexts
        cases written with
        | nil =>
            obtain ⟨rfl, -⟩ := List.cons.inj htexts
            rw [List.flatMap_nil, List.append_nil] at hfull ⊢
            exact .inl ⟨rfl, Output.accepts_append.trans hfull⟩
        | cons first written =>
            obtain ⟨rfl, -⟩ := List.cons.inj htexts
            rw [List.flatMap_cons]
            exact .inr (List.prefix_append _ _)

theorem run_limited (hq : q.mode = .eject) (hd : d.IsTree) (hlist : ∀ f ∈ files, d.IsListable f)
    (hfiles : x.resolve d q = .ok files) (hdsl : x.registry.contains q.dsl = true)
    (hyes : Confirm.Consents i ∧ ∀ f ∈ files, Confirm.Consents (answer f)) (hsplit : files = done ++ later)
    (h : Handles x q d done shown d₁) {result : Except Error Report}
    (hrun : ∀ o : Output, o.accepts (q.opening ++ x.shownBytes q shown) = true →
      (x.run q).run ⟨d, o, i⟩ = (result, ⟨d', o.append (q.opening ++ x.shownBytes q shown), q.unread i⟩))
    {written : Bytes} {w : World} (hw : (x.run q).run ⟨d, ⟨written, none⟩, i⟩ = (result, w)) (limit : Nat) :
    (w.output.written.length ≤ limit →
      (x.run q).run ⟨d, ⟨written, some limit⟩, i⟩ = (result, ⟨w.disk, ⟨w.output.written, some limit⟩, w.input⟩)) ∧
    (limit < w.output.written.length → StopsAtWrite x q answer ⟨d, ⟨written, some limit⟩, i⟩ files) := by
  subst hsplit
  rw [hrun ⟨written, none⟩ rfl] at hw
  cases hw
  constructor
  · intro hfits
    refine hrun ⟨written, some limit⟩ ?_
    simpa [Output.accepts, Output.append] using hfits
  · intro hfull
    refine stopsAtWrite_of_not_accepts hpure hq hd hlist hfiles hdsl hyes.1 hyes.2 h ?_
    simpa [Output.accepts, Output.append] using hfull

end Pure

end Explorer

/-- A confirmed run over a package is the runs over its files in their order. Where its output takes
everything, it completes or stops where the first of these fails. An eject whose output takes all that it
would write ends as without a limit; otherwise it stops at a text that is refused. -/
theorem package_run_is_runs_in_order {x : Explorer} {q : Request} {d : Disk} {o i : Bytes} {key : String}
    {files : List Path} (answer : Path → Bytes) (hd : d.IsTree) (hnamed : d.IsNamed)
    (hpure : ∀ t, x.registry.resolve q.dsl = .ok t → t.IsPure) (htarget : q.target = .ok (.package key))
    (hfiles : x.files d (.package key) = .ok files)
    (hyes : q.mode = .eject → Confirm.Consents i ∧ ∀ f ∈ files, Confirm.Consents (answer f)) :
    (x.registry.contains q.dsl = false → ∀ o i, (x.run q).run ⟨d, o, i⟩ =
        (.error (.unknownIdentifier q.dsl), ⟨d, o, i⟩) ∧
      ∀ f, (x.run (q.forFile f)).run ⟨d, o, i⟩ = (.error (.unknownIdentifier q.dsl), ⟨d, o, i⟩)) ∧
    (x.registry.contains q.dsl = true →
      (x.Completes q answer ⟨d, ⟨o, none⟩, i⟩ files ∨ x.StopsWith q answer ⟨d, ⟨o, none⟩, i⟩ files) ∧
      (q.mode = .eject → ∀ r w, (x.run q).run ⟨d, ⟨o, none⟩, i⟩ = (r, w) → ∀ limit,
        (w.output.written.length ≤ limit →
          (x.run q).run ⟨d, ⟨o, some limit⟩, i⟩ = (r, ⟨w.disk, ⟨w.output.written, some limit⟩, w.input⟩)) ∧
        (limit < w.output.written.length → x.StopsAtWrite q answer ⟨d, ⟨o, some limit⟩, i⟩ files))) := by
  refine ⟨fun hdsl o i => ⟨?_, fun f => ?_⟩, fun hdsl => ?_⟩
  · exact Explorer.run_of_resolve_error (w := ⟨d, o, i⟩) (Explorer.resolve_of_not_contains hdsl d)
  · exact Explorer.run_of_resolve_error (w := ⟨d, o, i⟩) (Explorer.resolve_of_not_contains (q := q.forFile f) hdsl d)
  have hresolve : x.resolve d q = .ok files := (Explorer.resolve_eq_ok htarget).2 ⟨hdsl, hfiles⟩
  have hlist := Explorer.isListable_of_mem_files hnamed hfiles
  have hconsents : q.mode = .eject → Confirm.Consents i := fun hq => (hyes hq).1
  obtain ⟨shown, d', hall⟩ | ⟨done, file, later, shown, d₁, e, d₂, rfl, hdone, hfile⟩ :=
    Explorer.exists_handles x q d files
  · have hrun (o : Output) := Explorer.run_of_handles (o := o) hpure hresolve hconsents hall
    obtain ⟨parts, hparts, hbytes, hchanged, -⟩ :=
      hall.runsAlone hpure answer hdsl hlist (fun hq => (hyes hq).2) (.nil hd)
    refine ⟨.inl ⟨parts, d', hparts, ?_⟩, fun hq r w hw => ?_⟩
    · rw [hbytes, hchanged]
      exact hrun ⟨o, none⟩ rfl
    · obtain rfl : r = _ := congrArg Prod.fst (hw.symm.trans (hrun ⟨o, none⟩ rfl))
      exact Explorer.run_limited hpure hq hd hlist hresolve hdsl (hyes hq) (List.append_nil files).symm hall hrun hw
  · have hrun (o : Output) := Explorer.run_of_handle_error (o := o) hpure hresolve hconsents hdone hfile
    have hlistDone : ∀ f ∈ done, d.IsListable f := fun f hf => hlist f (List.mem_append_left _ hf)
    have hmem : file ∈ done ++ file :: later := by simp
    have hprior := hdone.rewritten hpure hlistDone (.nil hd)
    obtain ⟨parts, hparts, hbytes, -, -⟩ := hdone.runsAlone hpure answer hdsl hlistDone
      (fun hq f hf => (hyes hq).2 f (List.mem_append_left _ hf)) (.nil hd)
    obtain ⟨alone, halone, hdisk, hsame⟩ := Explorer.exists_run_forFile_error hpure hdsl
      (Explorer.isListable_of_rewritten (hlist file hmem) hprior) (fun hq => (hyes hq).2 file hmem) hfile
    refine ⟨.inr ⟨done, file, later, parts, d₁, d₂, alone, e, rfl, hparts, halone, hdisk,
      Explorer.leaves_of_handle_error hfile, hsame, ?_⟩, fun hq r w hw => ?_⟩
    · rw [hbytes]
      exact hrun ⟨o, none⟩ rfl
    · obtain rfl : r = _ := congrArg Prod.fst (hw.symm.trans (hrun ⟨o, none⟩ rfl))
      exact Explorer.run_limited hpure hq hd hlist hresolve hdsl (hyes hq) rfl hdone hrun hw

namespace Path

def slashed (n : Nat) : Path := 0x70 :: List.replicate (n + 1) slash

theorem splitSlash_replicate (n : Nat) : splitSlash (List.replicate n slash) = List.replicate (n + 1) [] := by
  induction n with
  | zero => rfl
  | succ n ih => rw [List.replicate_succ, splitSlash, if_pos rfl, ih, ← List.replicate_succ]

theorem names_slashed (n : Nat) : names (slashed n) = ["p"] := by
  have hsplit : splitSlash (slashed n) = ("p" : Path) :: List.replicate (n + 1) [] := by
    rw [slashed, List.replicate_succ, ← List.singleton_append, splitSlash_append_slash, splitSlash_replicate]
    rfl
  have hp : List.isEmpty ("p" : Path) = false := by decide
  rw [names, hsplit]
  simp [hp]

theorem endsInSlash_slashed (n : Nat) : endsInSlash (slashed n) = true := by
  rw [endsInSlash, slashed, List.replicate_succ', ← List.cons_append, List.getLast?_concat]
  rfl

theorem length_slashed (n : Nat) : (slashed n).length = n + 2 := by
  rw [slashed, List.length_cons, List.length_replicate]

theorem slashed_ne_nil (n : Nat) : slashed n ≠ [] := List.cons_ne_nil _ _

theorem join_slashed {n : Nat} {name : Path} (h : isAbsolute name = false) :
    join (slashed n) name = slashed n ++ name := by
  rw [join, h, endsInSlash_slashed]
  simp

end Path

namespace Disk

variable {n : Nat}

theorem checkPath_slashed (hn : n + 2 ≤ maxPathBytes) : checkPath (Path.slashed n) = .ok () := by
  have hnul : (Path.slashed n).contains 0 = false := by
    simp [Path.slashed, Path.slash]
  unfold checkPath
  rw [hnul, if_neg (by simp), if_neg (Path.slashed_ne_nil n), Path.length_slashed, if_neg (Nat.not_lt.2 hn)]

theorem locate_slashed {d : Disk} {mode : Nat} (hstart : d.workingDirectory = [])
    (hp : d.entry? ["p"] = some (.directory mode)) (hn : n + 2 ≤ maxPathBytes) :
    d.locate (Path.slashed n) = .ok ["p"] := by
  have hstart' : d.start (Path.slashed n) = [] := by
    rw [start, hstart]
    rfl
  have hsteps : Path.steps (Path.slashed n) = [("p" : Path), []] := by
    rw [Path.steps, Path.names_slashed, Path.endsInSlash_slashed]
    rfl
  have hdir : d.Admits ["p"] [] := ⟨by rw [isDirectoryAt, hp]; rfl, absurd rfl⟩
  exact locate_in (checkPath_slashed hn) hstart' hsteps hp (Nat.zero_le _) (.of_move hdir (.stay (.inr rfl)))

theorem files_slashed (hn : n + 2 ≤ maxPathBytes) : package.files (Path.slashed n) "fusion" =
    .ok [Path.join (Path.slashed n) "a.fusion", Path.join (Path.slashed n) "b.fusion"] := by
  have hchildren : package.children ["p"] = ([("a.fusion", .file 0o644 (Text.encode "md`1`")),
      ("b.fusion", .file 0o600 (Text.encode "b`2`"))] : List (Path × Entry)) := rfl
  have hlocate : package.locate (Path.slashed n) = .ok ["p"] := locate_slashed rfl rfl hn
  have hgrants : package.grantsAt .read ["p"] = true := by decide
  rw [files, hlocate]
  dsimp only
  rw [if_pos (by decide), if_neg (by simp [hgrants]), visit_of_files (readDirectory_eq_ok.2 ⟨hlocate, hgrants⟩),
    hchildren]
  · rfl
  · intro c hc
    rw [hchildren] at hc
    rcases List.mem_pair.1 hc with rfl | rfl
    · exact ⟨rfl, by decide, (Path.extension?_join (Path.slashed_ne_nil n) (by decide) (by decide)).trans (by decide)⟩
    · exact ⟨rfl, by decide, (Path.extension?_join (Path.slashed_ne_nil n) (by decide) (by decide)).trans (by decide)⟩

theorem isDirectory_slashed (hn : n + 2 ≤ maxPathBytes) : package.isDirectory (Path.slashed n) = true := by
  rw [isDirectory_of_locate (locate_slashed rfl rfl hn)]
  rfl

theorem checkPath_join_slashed {name : Path} (hname : Path.IsComponent name) (hn : n + 2 ≤ maxPathBytes)
    (hlong : maxPathBytes < n + 2 + name.length) :
    checkPath (Path.join (Path.slashed n) name) = .error .nameTooLong := by
  refine (checkPath_join (checkPath_slashed hn) hname).2.resolve_left fun h => ?_
  have hsize := (checkPath_eq_ok h).2.2
  rw [Path.join_slashed hname.isAbsolute_eq_false, List.length_append, Path.length_slashed] at hsize
  omega

end Disk

namespace Explorer

def slashed (n : Nat) : Explorer :=
  { registry := .brackets, packages := ⟨Table.empty.insert "p" (Path.slashed n), [], ""⟩
    surroundings := fun _ => .willing "t" }

theorem files_slashed {n : Nat} (hn : n + 2 ≤ Disk.maxPathBytes) : (slashed n).files .package (.package "p") =
    .ok [Path.join (Path.slashed n) "a.fusion", Path.join (Path.slashed n) "b.fusion"] := by
  have hpath : (slashed n).packages.paths.get? "p" = some (Path.slashed n) := Table.get?_insert_self _ _ _
  have hjoin : Path.join (Path.slashed n) (slashed n).packages.fusionPath = Path.slashed n :=
    (Path.join_slashed rfl).trans (List.append_nil _)
  have hdir := Disk.isDirectory_slashed hn
  rw [files_of_configured hpath hdir (hjoin.symm ▸ hdir), hjoin]
  change listFiles .package (Path.slashed n) "fusion" = _
  rw [listFiles, Disk.files_slashed hn]

end Explorer

/-- The directory can be listed, and the path of its first file is too long: the run on the package
cannot read the file, the run on the file does not find it. -/
theorem long_path_fails_differently :
    Disk.package.IsTree ∧ (∀ t, (Explorer.slashed 4090).registry.resolve "md" = .ok t → t.IsPure) ∧
      (Explorer.slashed 4090).files .package (.package "p") =
        .ok [Path.join (Path.slashed 4090) "a.fusion", Path.join (Path.slashed 4090) "b.fusion"] ∧
      (((Explorer.slashed 4090).run ⟨"md", some "p", none, .simulate, .full⟩).run ⟨.package, {}, []⟩).1 =
        .error (.readFailure (Path.join (Path.slashed 4090) "a.fusion") (.io .nameTooLong)) ∧
      (((Explorer.slashed 4090).run (Request.forFile ⟨"md", some "p", none, .simulate, .full⟩
        (Path.join (Path.slashed 4090) "a.fusion"))).run ⟨.package, {}, []⟩).1 =
        .error (.fileNotFound (Path.join (Path.slashed 4090) "a.fusion")) := by
  have hpure : ∀ t, (Explorer.slashed 4090).registry.resolve "md" = .ok t → t.IsPure := fun _ => Explorer.isPure_brackets
  have htext : Disk.package.locate (Path.join (Path.slashed 4090) "a.fusion") = .error .nameTooLong := by
    rw [Disk.locate, Disk.checkPath_join_slashed (by decide) (by decide) (by decide)]
    rfl
  have hfiles := Explorer.files_slashed (n := 4090) (by decide)
  refine ⟨Disk.isTree_package, hpure, hfiles, ?_, ?_⟩
  · have hresolve : (Explorer.slashed 4090).resolve .package ⟨"md", some "p", none, .simulate, .full⟩ =
        .ok ([] ++ Path.join (Path.slashed 4090) "a.fusion" :: [Path.join (Path.slashed 4090) "b.fusion"]) :=
      (Explorer.resolve_eq_ok rfl).2 ⟨rfl, hfiles⟩
    rw [Explorer.run_of_handle_error (o := {}) hpure hresolve (fun h => by cases h) (.nil _)
      (Explorer.handle_eq_error (Explorer.preview_of_locate_error htext)) rfl]
  · rw [Explorer.run_forFile_of_not_isFile (q := ⟨"md", some "p", none, .simulate, .full⟩) rfl
      (Disk.checkPath_join (Disk.checkPath_slashed (n := 4090) (by decide)) (by decide)).1
      (Explorer.isFile_of_locate_error htext)]

theorem package_runs_in_order :
    Disk.package.IsTree ∧ Disk.package.IsNamed ∧ Confirm.Consents (Text.encode "yes") ∧
      Explorer.brackets.files .package (.package "p") = .ok ["/p/a.fusion", "/p/b.fusion"] ∧
      Explorer.brackets.Completes ⟨"md", some "p", none, .eject, .full⟩ (fun _ => Text.encode "yes")
        ⟨.package, {}, Text.encode "yes"⟩ ["/p/a.fusion", "/p/b.fusion"] ∧
      Explorer.brackets.StopsAtWrite ⟨"md", some "p", none, .eject, .full⟩ (fun _ => Text.encode "yes")
        ⟨.package, ⟨[], some (Text.encode (Message.prompt "md")).length⟩, Text.encode "yes"⟩
        ["/p/a.fusion", "/p/b.fusion"] := by
  have hnamed : Disk.package.IsNamed := by decide
  have hpure : ∀ t, Explorer.brackets.registry.resolve "md" = .ok t → t.IsPure := fun _ => Explorer.isPure_brackets
  have hyes : Confirm.Consents (Text.encode "yes") := (Confirm.consents_encode (by decide)).2 (by decide)
  obtain ⟨d', -, hshown⟩ := Explorer.run_processFiles_of_eject hpure Disk.isTree_package Disk.apart_package
    (fun _ => Explorer.isSmooth_brackets) Explorer.previews_brackets
  have hrun : (Explorer.brackets.run ⟨"md", some "p", none, .eject, .full⟩).run ⟨.package, {}, Text.encode "yes"⟩ = _ :=
    Explorer.run_of_processFiles Explorer.files_brackets (Explorer.run_gate_of_eject rfl hyes .package [])
      (hshown ⟨"md", some "p", none, .eject, .full⟩ _ _ rfl rfl)
  obtain ⟨hresult, hlimited⟩ := (package_run_is_runs_in_order (x := .brackets) (o := []) (i := Text.encode "yes")
    (q := ⟨"md", some "p", none, .eject, .full⟩) (fun _ => Text.encode "yes") Disk.isTree_package hnamed hpure rfl
    Explorer.files_brackets (fun _ => ⟨hyes, fun _ _ => hyes⟩)).2 rfl
  refine ⟨Disk.isTree_package, hnamed, hyes, Explorer.files_brackets, hresult.resolve_right ?_, ?_⟩
  · rintro ⟨_, _, _, _, _, _, _, _, -, -, -, -, -, -, hstops⟩
    rw [hrun] at hstops
    cases hstops
  · have hannounced : 0 < (Text.encode (Message.ejected "md" "/p/a.fusion")).length := by decide
    refine (hlimited rfl _ _ hrun _).2 ?_
    simpa [Preview.ejected] using hannounced

end Inlay
