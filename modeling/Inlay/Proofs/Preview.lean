import Inlay.Proofs.Consent
import Inlay.Proofs.Sibling

namespace Inlay

theorem Text.encode_append (a b : String) : encode (a ++ b) = encode a ++ encode b := by
  simp [encode]

namespace Disk

/-- The paths lead to files, and no two of them to the same one. -/
def Apart (d : Disk) (files : List Path) : Prop :=
  (∀ f ∈ files, d.isFile f = true) ∧ files.Pairwise fun f g => d.locate f ≠ d.locate g

theorem apart_singleton {d : Disk} {file : Path} (h : d.isFile file = true) : d.Apart [file] :=
  ⟨by simpa using h, List.pairwise_singleton _ _⟩

theorem Apart.of_cons {d : Disk} {file : Path} {files : List Path} (h : d.Apart (file :: files)) :
    d.Apart files :=
  ⟨fun f hf => h.1 f (List.mem_cons_of_mem _ hf), h.2.of_cons⟩

theorem Apart.congr {d d' : Disk} {files : List Path} (h : d.Apart files)
    (hsame : ∀ f ∈ files, d'.locate f = d.locate f ∧ d'.stat f = d.stat f) : d'.Apart files := by
  refine ⟨fun f hf => ?_, h.2.imp_of_mem fun hf hg hne => ?_⟩
  · rw [isFile, (hsame f hf).2, ← isFile, h.1 f hf]
  · rwa [(hsame _ hf).1, (hsame _ hg).1]

theorem Apart.of_append {d : Disk} {as bs : List Path} (h : d.Apart (as ++ bs)) : d.Apart as :=
  ⟨fun f hf => h.1 f (List.mem_append_left _ hf), (List.pairwise_append.1 h.2).1⟩

theorem privileged_of_replace {d d' : Disk} {path : Path} {content : Bytes} (h : d.replace path content = .ok d') :
    d'.privileged = d.privileged := by
  obtain ⟨mode, l, -, -, -, rfl⟩ := replace_eq_ok.1 h
  rfl

theorem read_congr {d d' : Disk} {path : Path} (hprivileged : d'.privileged = d.privileged)
    (h : d'.stat path = d.stat path) : d'.read path = d.read path := by
  have hgrants : d'.grants = d.grants := by
    funext r e
    rw [grants, hprivileged, grants]
  rw [read, openEntry, h, hgrants, read, openEntry]

end Disk

theorem exists_read_of_readText {d : Disk} {path : Path} {text : String} (h : readText d path = .ok text) :
    ∃ bytes, d.read path = .ok bytes := by
  unfold readText at h
  split at h
  · cases h
  · next bytes hbytes => exact ⟨bytes, hbytes⟩

theorem Step.run_emit_of_unlimited (text : String) (d : Disk) (o i : Bytes) :
    (emit text).run ⟨d, ⟨o, none⟩, i⟩ = (.ok (), ⟨d, ⟨o ++ Text.encode text, none⟩, i⟩) := by
  exact run_emit_of_some rfl

/-- A file that has something to expand, its text and what it becomes. -/
structure Preview where
  file : Path
  before : String
  after : String

namespace Preview

def simulated (s : Preview) (x : Explorer) (dsl : String) (p : Presentation) : String :=
  Message.simulated dsl s.file ++ x.presenter.render s.before s.after p

def ejected (s : Preview) (x : Explorer) (dsl : String) : Presentation → String
  | .diff => Message.ejected dsl s.file ++ "\n" ++ x.presenter.render s.before s.after .diff
  | .full => Message.ejected dsl s.file

end Preview

namespace Explorer

variable {x : Explorer} {dsl : String} {d d' : Disk}

def preview (x : Explorer) (d : Disk) (dsl : String) (file : Path) : Except Error (Option Preview) :=
  match readText d file with
  | .error e => .error e
  | .ok text =>
    match ((x.registry.expand text dsl).run d).1 with
    | .error e => .error e
    | .ok expansion => .ok (if expansion.changed then some ⟨file, text, expansion.content⟩ else none)

/-- The previews of the files that have something to expand, or the first failure. -/
def previews (x : Explorer) (d : Disk) (dsl : String) : List Path → Except Error (List Preview)
  | [] => .ok []
  | file :: files => do
    let shown ← x.preview d dsl file
    let rest ← x.previews d dsl files
    return shown.toList ++ rest

theorem preview_congr (hpure : ∀ t, x.registry.resolve dsl = .ok t → t.IsPure) {file : Path}
    (h : d'.read file = d.read file) : x.preview d' dsl file = x.preview d dsl file := by
  have hread : readText d' file = readText d file := by rw [readText, h, readText]
  have hexpand (text : String) :
      ((x.registry.expand text dsl).run d').1 = ((x.registry.expand text dsl).run d).1 := by
    rw [(Registry.expand_steady hpure text).run_eq d d']
  simp only [preview, hread, hexpand]

theorem previews_congr (hpure : ∀ t, x.registry.resolve dsl = .ok t → t.IsPure) {files : List Path}
    (h : ∀ f ∈ files, d'.read f = d.read f) : x.previews d' dsl files = x.previews d dsl files := by
  induction files with
  | nil => rfl
  | cons file files ih =>
      rw [previews, previews, preview_congr hpure (h file List.mem_cons_self),
        ih fun f hf => h f (List.mem_cons_of_mem _ hf)]

theorem previews_cons_eq_ok {file : Path} {files : List Path} {shown : List Preview} :
    x.previews d dsl (file :: files) = .ok shown ↔
      ∃ s rest, x.preview d dsl file = .ok s ∧ x.previews d dsl files = .ok rest ∧ shown = s.toList ++ rest := by
  rw [previews]
  cases x.preview d dsl file with
  | error e => exact ⟨nofun, nofun⟩
  | ok s =>
      cases x.previews d dsl files with
      | error e => exact ⟨nofun, nofun⟩
      | ok rest =>
          constructor
          · intro h
            cases h
            exact ⟨s, rest, rfl, rfl, rfl⟩
          · rintro ⟨s', rest', hs, hrest, rfl⟩
            cases hs
            cases hrest
            rfl

theorem exists_of_previews_eq_error {files : List Path} {e : Error} (h : x.previews d dsl files = .error e) :
    ∃ done file rest shown, files = done ++ file :: rest ∧ x.previews d dsl done = .ok shown ∧
      x.preview d dsl file = .error e := by
  induction files with
  | nil => cases h
  | cons file files ih =>
      cases hfile : x.preview d dsl file with
      | error e' =>
          rw [previews, hfile] at h
          cases h
          exact ⟨[], file, files, [], rfl, rfl, hfile⟩
      | ok s =>
          cases hfiles : x.previews d dsl files with
          | ok rest =>
              rw [previews_cons_eq_ok.2 ⟨s, rest, hfile, hfiles, rfl⟩] at h
              cases h
          | error e' =>
              rw [previews, hfile, hfiles] at h
              cases h
              obtain ⟨done, next, rest, shown, rfl, hdone, hnext⟩ := ih hfiles
              exact ⟨file :: done, next, rest, s.toList ++ shown, rfl,
                previews_cons_eq_ok.2 ⟨s, shown, hfile, hdone, rfl⟩, hnext⟩

theorem file_of_preview {file : Path} {s : Preview} (h : x.preview d dsl file = .ok (some s)) :
    s.file = file ∧ readText d file = .ok s.before := by
  unfold preview at h
  split at h
  · cases h
  · next text hread =>
      split at h
      · cases h
      · next expansion _ =>
          split at h
          · cases h
            exact ⟨rfl, hread⟩
          · cases h

theorem readText_of_mem_previews {files : List Path} {shown : List Preview}
    (h : x.previews d dsl files = .ok shown) {s : Preview} (hs : s ∈ shown) : readText d s.file = .ok s.before := by
  induction files generalizing shown with
  | nil =>
      cases h
      cases hs
  | cons file files ih =>
      obtain ⟨found, rest, hfile, hrest, rfl⟩ := previews_cons_eq_ok.1 h
      rcases List.mem_append.1 hs with hs | hs
      · cases found with
        | none => cases hs
        | some s' =>
            obtain rfl := List.mem_singleton.1 hs
            obtain ⟨rfl, hread⟩ := file_of_preview hfile
            exact hread
      · exact ih hrest hs

variable {q : Request}

theorem run_processFile_of_preview (hpure : ∀ t, x.registry.resolve q.dsl = .ok t → t.IsPure) (file : Path)
    (w : World) :
    (x.processFile q file).run w =
      match x.preview w.disk q.dsl file with
      | .error e => (.error e, w)
      | .ok none => (.ok false, w)
      | .ok (some s) => (do x.present q s.file s.before s.after; return true : Step Bool).run w := by
  cases hread : readText w.disk file with
  | error e => rw [run_processFile_of_error hread, preview, hread]
  | ok text =>
      obtain ⟨r, hr⟩ := Registry.expand_steady hpure text
      have hexpand : (Step.onDisk (x.registry.expand text q.dsl)).run w = (r, w) := by
        rw [Step.run_onDisk, hr]
      rw [run_processFile_of_ok hread]
      simp only [preview, hread, hr]
      cases r with
      | error e => exact run_bind_of_error hexpand
      | ok expansion =>
          rw [run_bind_of_ok hexpand]
          cases hchanged : expansion.changed with
          | false =>
              simp only [hchanged, Bool.false_eq_true, if_false]
              rfl
          | true => simp only [hchanged, if_true]

theorem run_processFile_of_fault (hpure : ∀ t, x.registry.resolve q.dsl = .ok t → t.IsPure) {file : Path}
    {e : Error} (h : x.preview d q.dsl file = .error e) (o : Output) (i : Bytes) :
    (x.processFile q file).run ⟨d, o, i⟩ = (.error e, ⟨d, o, i⟩) := by
  rw [run_processFile_of_preview hpure, h]

theorem run_processFile_of_none (hpure : ∀ t, x.registry.resolve q.dsl = .ok t → t.IsPure) {file : Path}
    (h : x.preview d q.dsl file = .ok none) (o : Output) (i : Bytes) :
    (x.processFile q file).run ⟨d, o, i⟩ = (.ok false, ⟨d, o, i⟩) := by
  rw [run_processFile_of_preview hpure, h]

theorem run_processFile_of_some (hpure : ∀ t, x.registry.resolve q.dsl = .ok t → t.IsPure) {file : Path}
    {s : Preview} (h : x.preview d q.dsl file = .ok (some s)) {o : Output} {i : Bytes} {w : World}
    (hpresent : (x.present q s.file s.before s.after).run ⟨d, o, i⟩ = (.ok (), w)) :
    (x.processFile q file).run ⟨d, o, i⟩ = (.ok true, w) := by
  rw [run_processFile_of_preview hpure, h]
  exact run_bind_of_ok hpresent

theorem run_present_of_simulate (hq : q.mode = .simulate) (s : Preview) (d : Disk) (o i : Bytes) :
    (x.present q s.file s.before s.after).run ⟨d, ⟨o, none⟩, i⟩ =
      (.ok (), ⟨d, ⟨o ++ Text.encode (s.simulated x q.dsl q.presentation), none⟩, i⟩) := by
  unfold present
  rw [hq, run_bind_of_ok (Step.run_emit_of_unlimited _ d o i), Step.run_emit_of_unlimited,
    List.append_assoc, ← Text.encode_append]
  rfl

theorem run_present_of_eject (hq : q.mode = .eject) (s : Preview) {d d' : Disk}
    (hd : (persist (x.surroundings s.file) s.file s.after).run d = (.ok (), d')) (o i : Bytes) :
    (x.present q s.file s.before s.after).run ⟨d, ⟨o, none⟩, i⟩ =
      (.ok (), ⟨d', ⟨o ++ Text.encode (s.ejected x q.dsl q.presentation), none⟩, i⟩) := by
  have hreplace : (Step.onDisk (persist (x.surroundings s.file) s.file s.after)).run ⟨d, ⟨o, none⟩, i⟩ =
      (.ok (), ⟨d', ⟨o, none⟩, i⟩) := by
    rw [Step.run_onDisk, hd]
  unfold present
  rw [hq, run_bind_of_ok hreplace, run_bind_of_ok (Step.run_emit_of_unlimited _ d' o i)]
  cases hp : q.presentation with
  | full => rfl
  | diff =>
      rw [if_pos rfl, run_bind_of_ok (Step.run_emit_of_unlimited _ d' _ i), Step.run_emit_of_unlimited]
      simp only [List.append_assoc, ← Text.encode_append]
      rfl

theorem run_processFiles_of_simulate (hpure : ∀ t, x.registry.resolve dsl = .ok t → t.IsPure)
    {files : List Path} {shown : List Preview} (h : x.previews d dsl files = .ok shown) (q : Request)
    (o i : Bytes) (hq : q.mode = .simulate) (hdsl : q.dsl = dsl) :
    (x.processFiles q files).run ⟨d, ⟨o, none⟩, i⟩ =
      (.ok (shown.map (·.file)),
        ⟨d, ⟨o ++ shown.flatMap fun s => Text.encode (s.simulated x dsl q.presentation), none⟩, i⟩) := by
  subst hdsl
  induction files generalizing shown o with
  | nil =>
      cases h
      simp only [processFiles, List.map_nil, List.flatMap_nil, List.append_nil]
      rfl
  | cons file files ih =>
      obtain ⟨s, rest, hfile, hrest, rfl⟩ := previews_cons_eq_ok.1 h
      cases s with
      | none =>
          rw [processFiles, run_bind_of_ok (run_processFile_of_none hpure hfile _ i), run_bind_of_ok (ih o hrest)]
          rfl
      | some s =>
          obtain ⟨rfl, -⟩ := file_of_preview hfile
          rw [processFiles,
            run_bind_of_ok (run_processFile_of_some hpure hfile (run_present_of_simulate hq s d o i)),
            run_bind_of_ok (ih _ hrest)]
          simp only [Option.toList_some, List.singleton_append, List.map_cons, List.flatMap_cons,
            List.append_assoc]
          rfl

end Explorer

/-- The disk after the previews have been written into the files: what they show is read from their
files, and all that was read elsewhere still is. -/
structure Written (d d' : Disk) (files : List Path) (shown : List Preview) : Prop where
  isTree : d'.IsTree
  privileged : d'.privileged = d.privileged
  of_shown : ∀ s ∈ shown, d'.read s.file = .ok (Text.encode s.after)
  of_not_shown : ∀ f ∈ files, f ∉ shown.map (·.file) → d'.read f = d.read f
  of_apart : ∀ g, d.isFile g = true → (∀ f ∈ files, d.locate g ≠ d.locate f) → d'.stat g = d.stat g

namespace Written

variable {d d₁ d' : Disk} {file : Path} {files : List Path} {shown : List Preview}

theorem nil (hd : d.IsTree) : Written d d [] [] := ⟨hd, rfl, nofun, nofun, fun _ _ _ => rfl⟩

theorem skip (hapart : d.Apart (file :: files)) (h : Written d d' files shown) : Written d d' (file :: files) shown := by
  obtain ⟨hfiles, hpairs⟩ := hapart
  refine ⟨h.isTree, h.privileged, h.of_shown, fun f hf hf' => ?_, fun g hg hne => ?_⟩
  · rcases List.mem_cons.1 hf with rfl | hf
    · exact Disk.read_congr h.privileged (h.of_apart f (hfiles f List.mem_cons_self) fun _ => List.rel_of_pairwise_cons hpairs)
    · exact h.of_not_shown f hf hf'
  · exact h.of_apart g hg fun f hf => hne f (List.mem_cons_of_mem _ hf)

theorem step {s : Preview} (hapart : d.Apart (s.file :: files)) (hprivileged : d₁.privileged = d.privileged)
    (hfile : d₁.isFile s.file = true)
    (hread : d₁.read s.file = .ok (Text.encode s.after))
    (hother : ∀ other, d.isFile other = true → d.locate other ≠ d.locate s.file →
      d₁.locate other ≠ d₁.locate s.file ∧ d₁.locate other = d.locate other ∧ d₁.stat other = d.stat other)
    (h : Written d₁ d' files shown) : Written d d' (s.file :: files) (s :: shown) := by
  obtain ⟨hfiles, hpairs⟩ := hapart
  have hrest : ∀ f ∈ files, d₁.locate f ≠ d₁.locate s.file ∧ d₁.locate f = d.locate f ∧ d₁.stat f = d.stat f :=
    fun f hf => hother f (hfiles f (List.mem_cons_of_mem _ hf)) (List.rel_of_pairwise_cons hpairs hf).symm
  refine ⟨h.isTree, h.privileged.trans hprivileged, fun s' hs' => ?_, fun f hf hf' => ?_, fun g hg hne => ?_⟩
  · rcases List.mem_cons.1 hs' with rfl | hs'
    · rw [Disk.read_congr h.privileged (h.of_apart _ hfile fun f hf => (hrest f hf).1.symm), hread]
    · exact h.of_shown s' hs'
  · rw [List.map_cons, List.mem_cons, not_or] at hf'
    rcases List.mem_cons.1 hf with rfl | hf
    · exact absurd rfl hf'.1
    · rw [h.of_not_shown f hf hf'.2, Disk.read_congr hprivileged (hrest f hf).2.2]
  · obtain ⟨-, hlocate, hstat⟩ := hother g hg (hne s.file List.mem_cons_self)
    rw [← hstat]
    refine h.of_apart g (by rw [Disk.isFile, hstat, ← Disk.isFile, hg]) fun f hf => ?_
    rw [hlocate, (hrest f hf).2.1]
    exact hne f (List.mem_cons_of_mem _ hf)

end Written

namespace Explorer

variable {x : Explorer} {d : Disk}

theorem run_processFiles_of_eject {dsl : String} (hpure : ∀ t, x.registry.resolve dsl = .ok t → t.IsPure)
    (hd : d.IsTree) {files : List Path} {shown : List Preview} (hapart : d.Apart files)
    (hsmooth : ∀ f ∈ files, (x.surroundings f).IsSmooth d f) (h : x.previews d dsl files = .ok shown) :
    ∃ d', Written d d' files shown ∧
      ∀ (q : Request) (o i : Bytes), q.mode = .eject → q.dsl = dsl →
        (x.processFiles q files).run ⟨d, ⟨o, none⟩, i⟩ =
          (.ok (shown.map (·.file)),
            ⟨d', ⟨o ++ shown.flatMap fun s => Text.encode (s.ejected x dsl q.presentation), none⟩, i⟩) := by
  induction files generalizing d shown with
  | nil =>
      cases h
      refine ⟨d, .nil hd, fun q o i hq hdsl => ?_⟩
      simp only [processFiles, List.map_nil, List.flatMap_nil, List.append_nil]
      rfl
  | cons file files ih =>
      obtain ⟨s, rest, hfile, hrest, rfl⟩ := previews_cons_eq_ok.1 h
      cases s with
      | none =>
          obtain ⟨d', hwritten, hrun⟩ := ih hd hapart.of_cons (fun f hf => hsmooth f (List.mem_cons_of_mem _ hf)) hrest
          refine ⟨d', hwritten.skip hapart, fun q o i hq hdsl => ?_⟩
          subst hdsl
          rw [processFiles, run_bind_of_ok (run_processFile_of_none hpure hfile _ i),
            run_bind_of_ok (hrun q o i hq rfl)]
          rfl
      | some s =>
          obtain ⟨rfl, hbefore⟩ := file_of_preview hfile
          obtain ⟨old, hold⟩ := exists_read_of_readText hbefore
          have hisFile := hapart.1 s.file List.mem_cons_self
          obtain ⟨d₁, hreplace, hd₁, hfile₁, hread, hother⟩ := Disk.exists_replace hd hisFile (Text.encode s.after)
          have hprivileged := Disk.privileged_of_replace hreplace
          have hpersist := (hsmooth s.file List.mem_cons_self).run_persist hreplace
          have hsmooth₁ : ∀ f ∈ files, (x.surroundings f).IsSmooth d₁ f := fun f hf =>
            (hsmooth f (List.mem_cons_of_mem _ hf)).of_replace hd hisFile hreplace
          have hkept : ∀ f ∈ files, d₁.locate f = d.locate f ∧ d₁.stat f = d.stat f := fun f hf =>
            (hother f (hapart.1 f (List.mem_cons_of_mem _ hf)) (List.rel_of_pairwise_cons hapart.2 hf).symm).2
          rw [← previews_congr hpure fun f hf => Disk.read_congr hprivileged (hkept f hf).2] at hrest
          obtain ⟨d', hwritten, hrun⟩ := ih hd₁ (hapart.of_cons.congr hkept) hsmooth₁ hrest
          refine ⟨d', hwritten.step hapart hprivileged hfile₁ (hread _ hold) hother, fun q o i hq hdsl => ?_⟩
          subst hdsl
          rw [processFiles,
            run_bind_of_ok (run_processFile_of_some hpure hfile (run_present_of_eject hq s hpersist o i)),
            run_bind_of_ok (hrun q _ i hq rfl)]
          simp only [Option.toList_some, List.singleton_append, List.map_cons, List.flatMap_cons,
            List.append_assoc]
          rfl

end Explorer

end Inlay
