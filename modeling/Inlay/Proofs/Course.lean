import Inlay.Proofs.Agreement
import Inlay.Proofs.Listing

namespace Inlay

namespace Output

variable {o : Output} {a b : Bytes} {text : String}

def append (o : Output) (bytes : Bytes) : Output := { o with written := o.written ++ bytes }

@[simp] theorem append_nil (o : Output) : o.append [] = o := by simp [append]

theorem append_append : (o.append a).append b = o.append (a ++ b) := by simp [append]

theorem accepts_append : (o.append a).accepts b = o.accepts (a ++ b) := by
  simp [accepts, append, Nat.add_assoc]

theorem accepts_of_append (h : o.accepts (a ++ b) = true) : o.accepts a = true := by
  cases hlimit : o.limit with
  | none => simp [accepts, hlimit]
  | some limit =>
      simp only [accepts, hlimit, Option.all_some, decide_eq_true_eq, List.length_append] at h ⊢
      omega

theorem write_of_accepts (h : o.accepts (Text.encode text) = true) :
    o.write text = some (o.append (Text.encode text)) := if_pos h

theorem write_of_not_accepts (h : o.accepts (Text.encode text) = false) : o.write text = none :=
  if_neg (by simp [h])

end Output

def Error.outputFull : Error := .internal "Failed to write output: output is full"

namespace Step

def emitAll : List String → Step Unit
  | [] => return ()
  | text :: texts => do
    emit text
    emitAll texts

variable {texts : List String}

theorem run_emit_of_not_accepts {text : String} {w : World} (h : w.output.accepts (Text.encode text) = false) :
    (emit text).run w = (.error .outputFull, w) := run_emit_of_none (Output.write_of_not_accepts h)

theorem emitAll_keeps_disk (texts : List String) : Keeps World.disk (emitAll texts) := by
  induction texts with
  | nil => exact .pure ()
  | cons text texts ih => exact .bind (emit_keeps_disk text) fun _ => ih

theorem readAnswer_keeps_disk : Keeps World.disk readAnswer := by
  intro w
  cases hline : Text.decode? (Confirm.cutLine w.input).1 with
  | none => rw [run_readAnswer_of_no_text hline]
  | some line => rw [run_readAnswer_of_text hline]

theorem run_emitAll_of_accepts {w : World} (h : w.output.accepts (texts.flatMap Text.encode) = true) :
    (emitAll texts).run w = (.ok (), { w with output := w.output.append (texts.flatMap Text.encode) }) := by
  induction texts generalizing w with
  | nil =>
      rw [List.flatMap_nil, Output.append_nil]
      rfl
  | cons text texts ih =>
      rw [List.flatMap_cons] at h
      rw [emitAll, run_bind_of_ok (run_emit_of_some (Output.write_of_accepts (Output.accepts_of_append h)))]
      rw [ih (by rw [Output.accepts_append, h]), Output.append_append, List.flatMap_cons]

/-- Texts that the output does not take as a whole are written up to the first that it refuses. -/
theorem exists_run_emitAll_of_not_accepts {w : World} (hroom : w.output.accepts [] = true)
    (h : w.output.accepts (texts.flatMap Text.encode) = false) :
    ∃ done text rest, texts = done ++ text :: rest ∧
      w.output.accepts (done.flatMap Text.encode ++ Text.encode text) = false ∧
      (emitAll texts).run w =
        (.error .outputFull, { w with output := w.output.append (done.flatMap Text.encode) }) := by
  induction texts generalizing w with
  | nil =>
      rw [List.flatMap_nil, hroom] at h
      cases h
  | cons text texts ih =>
      cases htext : w.output.accepts (Text.encode text) with
      | false =>
          refine ⟨[], text, texts, rfl, htext, ?_⟩
          rw [emitAll, run_bind_of_error (run_emit_of_not_accepts htext), List.flatMap_nil, Output.append_nil]
      | true =>
          obtain ⟨done, text', rest, rfl, hfull, hrun⟩ := ih
            (w := { w with output := w.output.append (Text.encode text) })
            (by rw [Output.accepts_append, List.append_nil, htext])
            (by rw [Output.accepts_append, ← List.flatMap_cons, h])
          refine ⟨text :: done, text', rest, rfl, ?_, ?_⟩
          · rw [Output.accepts_append, ← List.append_assoc, ← List.flatMap_cons] at hfull
            exact hfull
          · rw [emitAll, run_bind_of_ok (run_emit_of_some (Output.write_of_accepts htext)), hrun,
              Output.append_append, List.flatMap_cons]

end Step

namespace Explorer

variable {x : Explorer} {q : Request}

/-- What is shown of a file, if anything, and the disk afterwards. -/
def handle (x : Explorer) (q : Request) (d : Disk) (file : Path) : Except Error (Option Preview) × Disk :=
  match x.preview d q.dsl file, q.mode with
  | .error e, _ => (.error e, d)
  | .ok none, _ => (.ok none, d)
  | .ok (some s), .simulate => (.ok (some s), d)
  | .ok (some s), .eject =>
    match (persist (x.surroundings s.file) s.file s.after).run d with
    | (.error e, d') => (.error e, d')
    | (.ok (), d') => (.ok (some s), d')

def texts (x : Explorer) (q : Request) (s : Preview) : List String :=
  match q.mode with
  | .simulate => [Message.simulated q.dsl s.file, x.presenter.render s.before s.after q.presentation]
  | .eject =>
    Message.ejected q.dsl s.file ::
      if q.presentation = .diff then ["\n", x.presenter.diff s.before s.after] else []

theorem texts_of_eject (hq : q.mode = .eject) (s : Preview) :
    ∃ more, x.texts q s = Message.ejected q.dsl s.file :: more := by
  unfold texts
  rw [hq]
  exact ⟨_, rfl⟩

def shownBytes (x : Explorer) (q : Request) (shown : List Preview) : Bytes :=
  (shown.flatMap (x.texts q)).flatMap Text.encode

theorem shownBytes_some (s : Preview) : x.shownBytes q (some s).toList = (x.texts q s).flatMap Text.encode := by
  simp [shownBytes]

theorem shownBytes_append (as bs : List Preview) :
    x.shownBytes q (as ++ bs) = x.shownBytes q as ++ x.shownBytes q bs := by
  simp [shownBytes]

theorem present_of_simulate (hq : q.mode = .simulate) (s : Preview) :
    x.present q s.file s.before s.after = Step.emitAll (x.texts q s) := by
  simp only [present, texts, hq, Step.emitAll, bind_pure_unit]

theorem present_of_eject (hq : q.mode = .eject) (s : Preview) :
    x.present q s.file s.before s.after = (do
      Step.onDisk (persist (x.surroundings s.file) s.file s.after)
      Step.emitAll (x.texts q s)) := by
  unfold present texts
  rw [hq]
  cases q.presentation with
  | full => rfl
  | diff => simp only [if_true, Step.emitAll, bind_pure_unit]

theorem run_processFile (hpure : ∀ t, x.registry.resolve q.dsl = .ok t → t.IsPure) (file : Path) (w : World) :
    (x.processFile q file).run w =
      match x.handle q w.disk file with
      | (.error e, d') => (.error e, { w with disk := d' })
      | (.ok none, _) => (.ok false, w)
      | (.ok (some s), d') =>
        (do Step.emitAll (x.texts q s); return true : Step Bool).run { w with disk := d' } := by
  rw [run_processFile_of_preview hpure, handle]
  cases hfile : x.preview w.disk q.dsl file with
  | error e => rfl
  | ok shown =>
      cases shown with
      | none => rfl
      | some s =>
          cases hm : q.mode with
          | simulate =>
              simp only [present_of_simulate hm]
          | eject =>
              have hreplace := Step.run_onDisk (persist (x.surroundings s.file) s.file s.after) w
              simp only [present_of_eject hm, bind_assoc]
              obtain ⟨result, d', hpersist⟩ : ∃ result d',
                  (persist (x.surroundings s.file) s.file s.after).run w.disk = (result, d') := ⟨_, _, rfl⟩
              rw [hpersist] at hreplace
              rw [hpersist]
              cases result with
              | error e => exact run_bind_of_error hreplace
              | ok => exact run_bind_of_ok hreplace

theorem resolve_eq_ok {d : Disk} {target : Target} {files : List Path} (htarget : q.target = .ok target) :
    x.resolve d q = .ok files ↔ x.registry.contains q.dsl = true ∧ x.files d target = .ok files := by
  unfold resolve
  rw [htarget]
  cases x.registry.contains q.dsl with
  | false => exact ⟨nofun, nofun⟩
  | true => exact ⟨fun h => ⟨rfl, h⟩, fun h => h.2⟩

theorem isListable_of_mem_files {d : Disk} {key : String} {files : List Path} (hnamed : d.IsNamed)
    (h : x.files d (.package key) = .ok files) : ∀ f ∈ files, d.IsListable f := by
  change (x.packages.fusionDirectory d key >>= fun directory => listFiles d directory x.fileExtension) = _ at h
  cases hdirectory : x.packages.fusionDirectory d key with
  | error e =>
      rw [hdirectory] at h
      cases h
  | ok directory =>
      rw [hdirectory] at h
      change listFiles d directory x.fileExtension = .ok files at h
      unfold listFiles at h
      split at h
      · next hlisted =>
          cases h
          exact Disk.isListable_of_mem_files hnamed hlisted
      · cases h

/-- The files are handled one after the other: what is shown of them, and the disk at the end. -/
inductive Handles (x : Explorer) (q : Request) : Disk → List Path → List Preview → Disk → Prop
  | nil (d : Disk) : Handles x q d [] [] d
  | cons {d d₁ d' : Disk} {file : Path} {s : Option Preview} {files : List Path} {shown : List Preview}
      (hfile : x.handle q d file = (.ok s, d₁)) (hrest : Handles x q d₁ files shown d') :
      Handles x q d (file :: files) (s.toList ++ shown) d'

/-- The disk is the given one, apart from a sibling of one of the files that cannot be taken away. -/
def Ends (x : Explorer) (files : List Path) (d d' : Disk) : Prop :=
  d' = d ∨ ∃ file ∈ files, (x.surroundings file).Leaves file d d'

variable {d d' : Disk} {files : List Path} {shown : List Preview} {o : Output} {i : Bytes}

theorem Ends.mono {files' : List Path} (h : x.Ends files d d') (hsub : files ⊆ files') : x.Ends files' d d' :=
  h.imp_right fun ⟨file, hfile, hleaves⟩ => ⟨file, hsub hfile, hleaves⟩

theorem exists_handles (x : Explorer) (q : Request) (d : Disk) (files : List Path) :
    (∃ shown d', Handles x q d files shown d') ∨
      ∃ done file later shown d₁ e d₂, files = done ++ file :: later ∧ Handles x q d done shown d₁ ∧
        x.handle q d₁ file = (.error e, d₂) := by
  induction files generalizing d with
  | nil => exact .inl ⟨[], d, .nil d⟩
  | cons file files ih =>
      obtain ⟨result, d₁, hfile⟩ : ∃ result d₁, x.handle q d file = (result, d₁) := ⟨_, _, rfl⟩
      cases result with
      | error e => exact .inr ⟨[], file, files, [], d, e, d₁, rfl, .nil d, hfile⟩
      | ok s =>
          obtain ⟨shown, d', hrest⟩ | ⟨done, next, later, shown, d₂, e, d₃, rfl, hdone, hnext⟩ := ih d₁
          · exact .inl ⟨s.toList ++ shown, d', .cons hfile hrest⟩
          · exact .inr ⟨file :: done, next, later, s.toList ++ shown, d₂, e, d₃, rfl, .cons hfile hdone, hnext⟩

theorem readText_of_locate_error {file : Path} {cause : IoError} (h : d.locate file = .error cause) :
    readText d file = .error (.readFailure file (.io cause)) := by
  unfold readText Disk.read Disk.openEntry Disk.stat
  rw [h]
  rfl

theorem preview_of_locate_error {dsl : String} {file : Path} {cause : IoError} (h : d.locate file = .error cause) :
    x.preview d dsl file = .error (.readFailure file (.io cause)) := by
  rw [preview, readText_of_locate_error h]

theorem handle_eq_error {file : Path} {e : Error} (h : x.preview d q.dsl file = .error e) :
    x.handle q d file = (.error e, d) := by
  rw [handle, h]

theorem handle_of_persist (hq : q.mode = .eject) {file : Path} {text content : String} {rs : List Replacement}
    (hread : readText d file = .ok text) (hexpand : ((x.registry.expand text q.dsl).run d).1 = .ok ⟨content, rs⟩)
    (hchanged : rs.isEmpty = false) (hpersist : (persist (x.surroundings file) file content).run d = (.ok (), d')) :
    x.handle q d file = (.ok (some ⟨file, text, content⟩), d') := by
  simp only [handle, preview, hread, hexpand, Expansion.changed, hchanged, Bool.not_false, if_true, hq, hpersist]

theorem handle_cases {file : Path} {s : Option Preview} (h : x.handle q d file = (.ok s, d')) :
    x.preview d q.dsl file = .ok s ∧
      (d' = d ∨ ∃ s', s = some s' ∧ q.mode = .eject ∧ d.replace file (Text.encode s'.after) = .ok d') := by
  unfold handle at h
  split at h
  · cases h
  · next hfile =>
      cases h
      exact ⟨hfile, .inl rfl⟩
  · next hfile _ =>
      cases h
      exact ⟨hfile, .inl rfl⟩
  · next s' hfile hm =>
      obtain ⟨rfl, -⟩ := file_of_preview hfile
      obtain ⟨cause, d₁, hpersist, -⟩ | ⟨d₁, hreplace, hpersist⟩ :=
        run_persist_cases (x.surroundings s'.file) s'.file s'.after d
      · rw [hpersist] at h
        cases h
      · rw [hpersist] at h
        cases h
        exact ⟨hfile, .inr ⟨s', rfl, hm, hreplace⟩⟩

/-- A file that fails: it cannot be shown, or it cannot be written, which leaves the disk next to unchanged. -/
theorem handle_error_cases {file : Path} {e : Error} (h : x.handle q d file = (.error e, d')) :
    (x.preview d q.dsl file = .error e ∧ d' = d) ∨
      ∃ s cause, x.preview d q.dsl file = .ok (some s) ∧ q.mode = .eject ∧ e = .writeFailure file cause ∧
        (x.surroundings file).Leaves file d d' := by
  unfold handle at h
  split at h
  · next hfile =>
      cases h
      exact .inl ⟨hfile, rfl⟩
  · cases h
  · cases h
  · next s hfile hm =>
      obtain ⟨rfl, -⟩ := file_of_preview hfile
      obtain ⟨cause, d₁, hpersist, hleaves⟩ | ⟨d₁, hreplace, hpersist⟩ :=
        run_persist_cases (x.surroundings s.file) s.file s.after d
      · rw [hpersist] at h
        cases h
        exact .inr ⟨s, cause, hfile, hm, rfl, hleaves⟩
      · rw [hpersist] at h
        cases h

theorem leaves_of_handle_error {file : Path} {e : Error} (h : x.handle q d file = (.error e, d')) :
    (x.surroundings file).Leaves file d d' := by
  obtain ⟨-, rfl⟩ | ⟨_, _, -, -, -, hleaves⟩ := handle_error_cases h
  · exact .nothing
  · exact hleaves

theorem file_of_handle {file : Path} {s : Preview} (h : x.handle q d file = (.ok (some s), d')) :
    s.file = file := (file_of_preview (handle_cases h).1).1

theorem eq_of_handle_none {file : Path} (h : x.handle q d file = (.ok none, d')) : d' = d := by
  obtain ⟨-, rfl | ⟨s, hs, -⟩⟩ := handle_cases h
  · rfl
  · cases hs

section Pure

variable (hpure : ∀ t, x.registry.resolve q.dsl = .ok t → t.IsPure)
include hpure

theorem run_processFile_of_handle {file : Path} {s : Option Preview} (h : x.handle q d file = (.ok s, d'))
    (ho : o.accepts (x.shownBytes q s.toList) = true) (i : Bytes) :
    (x.processFile q file).run ⟨d, o, i⟩ = (.ok s.isSome, ⟨d', o.append (x.shownBytes q s.toList), i⟩) := by
  rw [run_processFile hpure, h]
  cases s with
  | none =>
      obtain rfl := eq_of_handle_none h
      simp [shownBytes]
  | some s =>
      rw [shownBytes_some] at ho ⊢
      exact run_bind_of_ok (Step.run_emitAll_of_accepts (w := ⟨d', o, i⟩) ho)

theorem Handles.run_processFiles (h : Handles x q d files shown d') (ho : o.accepts (x.shownBytes q shown) = true)
    (i : Bytes) :
    (x.processFiles q files).run ⟨d, o, i⟩ =
      (.ok (shown.map (·.file)), ⟨d', o.append (x.shownBytes q shown), i⟩) := by
  induction h generalizing o with
  | nil d =>
      rw [shownBytes, List.flatMap_nil, List.flatMap_nil, Output.append_nil]
      rfl
  | @cons d d₁ d' file s files shown hfile _ ih =>
      rw [shownBytes_append] at ho ⊢
      rw [processFiles, run_bind_of_ok (run_processFile_of_handle hpure hfile (Output.accepts_of_append ho) i),
        run_bind_of_ok (ih (by rw [Output.accepts_append, ho])), Output.append_append]
      cases s with
      | none => rfl
      | some s =>
          obtain rfl := file_of_handle hfile
          rfl

/-- An output that does not take all that is shown of the files: it refuses a text of one of them, and
the run stops when that file has been handled and the texts before have been written. -/
theorem Handles.exists_refused (h : Handles x q d files shown d') (hroom : o.accepts [] = true)
    (ho : o.accepts (x.shownBytes q shown) = false) (later : List Path) (i : Bytes) :
    ∃ done s rest shown₁ d₁ d₂ written text unwritten, files = done ++ s.file :: rest ∧
      Handles x q d done shown₁ d₁ ∧ x.handle q d₁ s.file = (.ok (some s), d₂) ∧
      x.texts q s = written ++ text :: unwritten ∧
      o.accepts (x.shownBytes q shown₁ ++ written.flatMap Text.encode ++ Text.encode text) = false ∧
      (x.processFiles q (files ++ later)).run ⟨d, o, i⟩ =
        (.error .outputFull, ⟨d₂, o.append (x.shownBytes q shown₁ ++ written.flatMap Text.encode), i⟩) := by
  induction h generalizing o with
  | nil d =>
      rw [shownBytes, List.flatMap_nil, List.flatMap_nil, hroom] at ho
      cases ho
  | @cons d d₁ d' file s files shown hfile hrest ih =>
      rw [shownBytes_append] at ho
      cases hs : o.accepts (x.shownBytes q s.toList) with
      | false =>
          cases s with
          | none =>
              rw [Option.toList_none, shownBytes, List.flatMap_nil, List.flatMap_nil, hroom] at hs
              cases hs
          | some s =>
              obtain rfl := file_of_handle hfile
              rw [shownBytes_some] at hs
              obtain ⟨written, text, unwritten, hsplit, hfull, hrun⟩ :=
                Step.exists_run_emitAll_of_not_accepts (w := ⟨d₁, o, i⟩) hroom hs
              refine ⟨[], s, files, [], d, d₁, written, text, unwritten, rfl, .nil d, hfile, hsplit, ?_, ?_⟩
              · exact hfull
              · have hstop : (x.processFile q s.file).run ⟨d, o, i⟩ =
                    (.error .outputFull, ⟨d₁, o.append (written.flatMap Text.encode), i⟩) := by
                  rw [run_processFile hpure, hfile]
                  exact run_bind_of_error hrun
                exact run_bind_of_error hstop
      | true =>
          have hfirst := run_processFile_of_handle hpure hfile hs i
          obtain ⟨done, s', rest, shown₁, d₂, d₃, written, text, unwritten, rfl, hdone, hnext, hsplit, hfull, hrun⟩ :=
            ih (o := o.append (x.shownBytes q s.toList)) (by rw [Output.accepts_append, List.append_nil, hs])
              (by rw [Output.accepts_append, ho])
          refine ⟨file :: done, s', rest, s.toList ++ shown₁, d₂, d₃, written, text, unwritten, rfl,
            .cons hfile hdone, hnext, hsplit, ?_, ?_⟩
          · rw [Output.accepts_append] at hfull
            simpa only [shownBytes_append, List.append_assoc] using hfull
          · rw [List.cons_append, processFiles, run_bind_of_ok hfirst, run_bind_of_error hrun, Output.append_append,
              shownBytes_append, List.append_assoc]

/-- However a run ends, the first of its files have been handled on the disk, and at most a sibling of the next one
is left. -/
theorem exists_handles_of_processFiles (files : List Path) (w : World) :
    ∃ done shown d₁, done <+: files ∧ Handles x q w.disk done shown d₁ ∧
      x.Ends files d₁ ((x.processFiles q files).run w).2.disk := by
  induction files generalizing w with
  | nil => exact ⟨[], [], _, List.nil_prefix, .nil _, .inl rfl⟩
  | cons file files ih =>
      have hrun := run_processFile hpure file w
      obtain ⟨handled, d₁, hfile⟩ : ∃ handled d₁, x.handle q w.disk file = (handled, d₁) := ⟨_, _, rfl⟩
      rw [hfile] at hrun
      cases handled with
      | error e =>
          refine ⟨[], [], w.disk, List.nil_prefix, .nil _, ?_⟩
          rw [processFiles, run_bind_of_error hrun]
          exact .inr ⟨file, List.mem_cons_self, leaves_of_handle_error hfile⟩
      | ok s =>
          obtain ⟨result, w₁, hstep⟩ : ∃ result w₁, (x.processFile q file).run w = (result, w₁) := ⟨_, _, rfl⟩
          obtain rfl : w₁.disk = d₁ := by
            rw [hrun] at hstep
            cases s with
            | none =>
                obtain rfl := eq_of_handle_none hfile
                cases hstep
                rfl
            | some s =>
                have hdisk := Step.emitAll_keeps_disk (x.texts q s) { w with disk := d₁ }
                rw [← run_bind_pure_snd _ fun _ => true] at hdisk
                exact (congrArg (fun r => World.disk r.2) hstep).symm.trans hdisk
          cases result with
          | error e =>
              refine ⟨[file], s.toList ++ [], _, List.prefix_append [file] files, .cons hfile (.nil _), ?_⟩
              rw [processFiles, run_bind_of_error hstep]
              exact .inl rfl
          | ok changed =>
              obtain ⟨done, shown, d₂, hinitial, hdone, hends⟩ := ih w₁
              refine ⟨file :: done, s.toList ++ shown, d₂, List.cons_prefix_cons.2 ⟨rfl, hinitial⟩, .cons hfile hdone, ?_⟩
              rw [processFiles, run_bind_of_ok hstep, run_bind_pure_snd]
              exact hends.mono (List.subset_cons_self _ _)

end Pure

theorem gate_keeps_disk (q : Request) : Keeps World.disk (gate q) := by
  unfold gate confirm
  split
  · refine .bind (Step.emit_keeps_disk _) fun _ => .bind Step.readAnswer_keeps_disk fun answer => ?_
    split
    · exact .bind (Step.emit_keeps_disk _) fun _ => fun _ => rfl
    · exact .pure ()
  · exact .pure ()

theorem exists_handles_of_run (hpure : ∀ t, x.registry.resolve q.dsl = .ok t → t.IsPure) {w : World}
    (hfiles : x.resolve w.disk q = .ok files) :
    ∃ done shown d₁, done <+: files ∧ Handles x q w.disk done shown d₁ ∧ x.Ends files d₁ ((x.run q).run w).2.disk := by
  obtain ⟨result, w₁, hgate⟩ : ∃ result w₁, (gate q).run w = (result, w₁) := ⟨_, _, rfl⟩
  have hdisk : w₁.disk = w.disk := by simpa [hgate] using gate_keeps_disk q w
  rw [run_of_resolve_ok hfiles, ← hdisk]
  cases result with
  | error e =>
      rw [run_bind_of_error hgate]
      exact ⟨[], [], _, List.nil_prefix, .nil _, .inl rfl⟩
  | ok =>
      rw [run_bind_of_ok hgate, run_bind_pure_snd]
      exact exists_handles_of_processFiles hpure files w₁

end Explorer

end Inlay
