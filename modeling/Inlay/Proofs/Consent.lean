import Inlay.Proofs.Phases

namespace Inlay

namespace Confirm

/-- `line` is the input up to and including its first line feed, or all of it if it has none. -/
def IsFirstLine (line input : Bytes) : Prop :=
  line <+: input ∧ newline ∉ line.dropLast ∧ (line.getLast? = some newline ∨ line = input)

theorem isFirstLine_cons {b : UInt8} (hb : b ≠ newline) {line rest : Bytes} :
    IsFirstLine (b :: line) (b :: rest) ↔ IsFirstLine line rest := by
  cases line with
  | nil =>
      have hb' : newline ≠ b := fun h => hb h.symm
      simp [IsFirstLine, hb, eq_comm]
  | cons c line =>
      have hb' : newline ≠ b := fun h => hb h.symm
      simp [IsFirstLine, hb', List.cons_prefix_cons]

theorem isFirstLine_iff {line input : Bytes} : IsFirstLine line input ↔ line = (cutLine input).1 := by
  induction input generalizing line with
  | nil =>
      constructor
      · rintro ⟨hstart, -, -⟩
        exact List.prefix_nil.1 hstart
      · rintro rfl
        simp [IsFirstLine, cutLine]
  | cons b rest ih =>
      by_cases hb : b = newline
      · subst hb
        have hcut : (cutLine (newline :: rest)).1 = [newline] := by simp [cutLine]
        rw [hcut]
        constructor
        · rintro ⟨hstart, hinner, hlast⟩
          cases line with
          | nil => simp at hlast
          | cons c line =>
              obtain ⟨rfl, -⟩ := List.cons_prefix_cons.1 hstart
              cases line with
              | nil => rfl
              | cons c' line => simp at hinner
        · rintro rfl
          simp [IsFirstLine]
      · have hcut : (cutLine (b :: rest)).1 = b :: (cutLine rest).1 := by simp [cutLine, hb]
        rw [hcut]
        constructor
        · intro h
          cases line with
          | nil => simp [IsFirstLine] at h
          | cons c line =>
              obtain ⟨rfl, -⟩ := List.cons_prefix_cons.1 h.1
              rw [ih.1 ((isFirstLine_cons hb).1 h)]
        · rintro rfl
          exact (isFirstLine_cons hb).2 (ih.2 rfl)

/-- The first line of the input is text, and says yes between white space. -/
def Consents (input : Bytes) : Prop :=
  ∃ line text, IsFirstLine line input ∧ Text.decode? line = some text ∧ Text.trim text = "yes"

theorem consents_iff {input : Bytes} :
    Consents input ↔ ∃ text, Text.decode? (cutLine input).1 = some text ∧ isConfirmed text = true := by
  simp only [Consents, isFirstLine_iff, isConfirmed, token, beq_iff_eq]
  constructor
  · rintro ⟨line, text, rfl, h⟩
    exact ⟨text, h⟩
  · rintro ⟨text, h⟩
    exact ⟨_, text, rfl, h⟩

end Confirm

namespace Step

theorem run_readAnswer_of_text {w : World} {line : String}
    (h : Text.decode? (Confirm.cutLine w.input).1 = some line) :
    readAnswer.run w = (.ok line, { w with input := (Confirm.cutLine w.input).2 }) := by
  have hread : Confirm.readAnswer w.input = (.ok line, (Confirm.cutLine w.input).2) := by
    simp only [Confirm.readAnswer, h]
  refine (run_bind_of_ok (k := get) rfl).trans ?_
  rw [hread]
  rfl

theorem run_readAnswer_of_no_text {w : World} (h : Text.decode? (Confirm.cutLine w.input).1 = none) :
    readAnswer.run w = (.error (.internal ("Failed to read confirmation: " ++ Confirm.Fault.notUtf8.message)),
      { w with input := (Confirm.cutLine w.input).2 }) := by
  have hread : Confirm.readAnswer w.input = (.error .notUtf8, (Confirm.cutLine w.input).2) := by
    simp only [Confirm.readAnswer, h]
  refine (run_bind_of_ok (k := get) rfl).trans ?_
  rw [hread]
  rfl

end Step

theorem Registry.contains_iff {r : Registry} {i : String} : r.contains i = true ↔ i ∈ r.identifiers := by
  unfold contains identifiers Table.contains Table.get? Table.keys
  induction r.transpilers.entries with
  | nil => simp [Table.find]
  | cons e rest ih =>
      by_cases hi : e.1 = i
      · simp [Table.find, hi]
      · have hi' : i ≠ e.1 := fun h => hi h.symm
        simp only [Table.find, Std.LawfulEqCmp.compare_eq_iff_eq, hi, if_false, List.map_cons,
          List.mem_cons, hi', false_or]
        exact ih

namespace Explorer

theorem run_confirm_of_consents {dsl : String} {w : World} {o : Output}
    (ho : w.output.write (Message.prompt dsl) = some o) (h : Confirm.Consents w.input) :
    (confirm dsl).run w = (.ok (), { w with output := o, input := (Confirm.cutLine w.input).2 }) := by
  obtain ⟨line, hline, hyes⟩ := Confirm.consents_iff.1 h
  have hanswer : Step.readAnswer.run { w with output := o } =
      (.ok line, { w with output := o, input := (Confirm.cutLine w.input).2 }) := Step.run_readAnswer_of_text hline
  rw [confirm, run_bind_of_ok (Step.run_emit_of_some ho), run_bind_of_ok hanswer, hyes]
  rfl

theorem run_confirm_of_not_consents (dsl : String) {w : World} (h : ¬ Confirm.Consents w.input) :
    ∃ e w', (confirm dsl).run w = (.error e, w') ∧ w'.disk = w.disk := by
  cases ho : w.output.write (Message.prompt dsl) with
  | none => exact ⟨_, w, run_bind_of_error (Step.run_emit_of_none ho), rfl⟩
  | some o =>
      rw [confirm, run_bind_of_ok (Step.run_emit_of_some ho)]
      cases hline : Text.decode? (Confirm.cutLine w.input).1 with
      | none =>
          have hanswer := Step.run_readAnswer_of_no_text (w := { w with output := o }) hline
          exact ⟨_, _, run_bind_of_error hanswer, rfl⟩
      | some line =>
          have hanswer := Step.run_readAnswer_of_text (w := { w with output := o }) hline
          have hno : Confirm.isConfirmed line = false := by
            by_contra hyes
            exact h (Confirm.consents_iff.2 ⟨line, hline, by simpa using hyes⟩)
          rw [run_bind_of_ok hanswer, hno]
          cases hdeclined : o.write Message.declined with
          | none =>
              have hemit := Step.run_emit_of_none
                (w := { w with output := o, input := (Confirm.cutLine w.input).2 }) hdeclined
              exact ⟨_, _, run_bind_of_error hemit, rfl⟩
          | some o' =>
              have hemit := Step.run_emit_of_some
                (w := { w with output := o, input := (Confirm.cutLine w.input).2 }) hdeclined
              exact ⟨_, _, run_bind_of_ok hemit, rfl⟩

variable {x : Explorer} {q : Request}

theorem present_keeps_disk (hq : q.mode = .simulate) (file : Path) (text content : String) :
    Keeps World.disk (x.present q file text content) := by
  rw [present, hq]
  exact .bind (Step.emit_keeps_disk _) fun _ => Step.emit_keeps_disk _

theorem processFile_keeps_disk (hq : q.mode = .simulate)
    (ht : ∀ t, x.registry.resolve q.dsl = .ok t → t.KeepsDisk) (file : Path) :
    Keeps World.disk (x.processFile q file) := by
  intro w
  cases hread : readText w.disk file with
  | error e => rw [run_processFile_of_error hread]
  | ok text =>
      rw [run_processFile_of_ok hread]
      refine Keeps.bind (Step.onDisk_keeps_disk (Registry.expand_keeps ht text)) (fun expansion => ?_) w
      split
      · exact .bind (present_keeps_disk hq _ _ _) fun _ => .pure true
      · exact .pure false

theorem processFiles_keeps_disk (hq : q.mode = .simulate)
    (ht : ∀ t, x.registry.resolve q.dsl = .ok t → t.KeepsDisk) (files : List Path) :
    Keeps World.disk (x.processFiles q files) := by
  induction files with
  | nil => exact .pure []
  | cons file files ih =>
      exact .bind (processFile_keeps_disk hq ht file) fun changed => .bind ih fun rest => .pure _

theorem run_keeps_disk (hq : q.mode = .simulate)
    (ht : ∀ t, x.registry.resolve q.dsl = .ok t → t.KeepsDisk) : Keeps World.disk (x.run q) := by
  intro w
  cases hfiles : x.resolve w.disk q with
  | error e => rw [run_of_resolve_error hfiles]
  | ok files =>
      rw [run_of_resolve_ok hfiles, gate, hq]
      exact Keeps.bind (.pure ()) (fun _ => .bind (processFiles_keeps_disk hq ht files) fun _ => .pure _) w

theorem resolve_with_registry {r : Registry} (h : ∀ i, i ∈ r.identifiers ↔ i ∈ x.registry.identifiers)
    (d : Disk) (q : Request) : ({ x with registry := r } : Explorer).resolve d q = x.resolve d q := by
  have hcontains : r.contains q.dsl = x.registry.contains q.dsl := by
    rw [Bool.eq_iff_iff, Registry.contains_iff, Registry.contains_iff]
    exact h q.dsl
  have hfiles (target : Target) : ({ x with registry := r } : Explorer).files d target = x.files d target := by
    cases target <;> rfl
  unfold resolve
  simp only [hcontains, hfiles]

end Explorer

/-- A simulation leaves the disk as it is. So does an eject whose first input line does not consent; it
fails, and what it says is the same for all registries with the same identifiers. -/
theorem nothing_touched_without_consent (x : Explorer) (q : Request) (w : World) :
    (q.mode = .simulate → (∀ t, x.registry.resolve q.dsl = .ok t → t.KeepsDisk) →
      ((x.run q).run w).2.disk = w.disk) ∧
    (q.mode = .eject → ¬ Confirm.Consents w.input →
      (∃ e, ((x.run q).run w).1 = .error e) ∧ ((x.run q).run w).2.disk = w.disk ∧
      ∀ r : Registry, (∀ i, i ∈ r.identifiers ↔ i ∈ x.registry.identifiers) →
        (({ x with registry := r } : Explorer).run q).run w = (x.run q).run w) := by
  refine ⟨fun hq ht => Explorer.run_keeps_disk hq ht w, fun hq hno => ?_⟩
  cases hfiles : x.resolve w.disk q with
  | error e =>
      rw [Explorer.run_of_resolve_error hfiles]
      refine ⟨⟨e, rfl⟩, rfl, fun r hr => ?_⟩
      rw [← Explorer.resolve_with_registry hr] at hfiles
      exact Explorer.run_of_resolve_error hfiles
  | ok files =>
      obtain ⟨e, w', hconfirm, hdisk⟩ := Explorer.run_confirm_of_not_consents q.dsl hno
      have hgate : (Explorer.gate q).run w = (.error e, w') := by rw [Explorer.gate, if_pos hq, hconfirm]
      have hrun (y : Explorer) (hy : y.resolve w.disk q = .ok files) : (y.run q).run w = (.error e, w') := by
        rw [Explorer.run_of_resolve_ok hy, run_bind_of_error hgate]
      rw [hrun x hfiles]
      refine ⟨⟨e, rfl⟩, hdisk, fun r hr => ?_⟩
      rw [hrun _ (by rw [Explorer.resolve_with_registry hr, hfiles])]

theorem Confirm.consents_encode {text : String} (h : newline ∉ (Text.encode text).dropLast) :
    Consents (Text.encode text) ↔ isConfirmed text = true := by
  have hline : (cutLine (Text.encode text)).1 = Text.encode text := by
    refine (isFirstLine_iff.1 ⟨List.prefix_refl _, h, .inr rfl⟩).symm
  rw [consents_iff, hline, Text.decode?_encode]
  simp

/-- A package `p` of two files, the second one without anything to expand. -/
def Disk.package : Disk :=
  { entries := ⟨[(["p"], .directory 0o755), (["p", "a.fusion"], .file 0o644 (Text.encode "md`1`")),
      (["p", "b.fusion"], .file 0o600 (Text.encode "b`2`"))], by decide⟩
    workingDirectory := [] }

def Explorer.brackets : Explorer :=
  { registry := .brackets, packages := ⟨Table.empty.insert "p" "/p", [], ""⟩
    surroundings := fun _ => .willing "t" }

theorem Explorer.isPure_brackets {t : Transpiler} (h : brackets.registry.resolve "md" = .ok t) : t.IsPure := by
  cases h
  exact Transpiler.isPure_ofTemplate _ _

theorem no_leaves_package :
    ((Explorer.brackets.run ⟨"md", some "p", none, .simulate, .full⟩).run ⟨.package, {}, []⟩).2.disk = .package ∧
      ¬ Confirm.Consents (Text.encode "no\n") ∧
      (∃ e, ((Explorer.brackets.run ⟨"md", some "p", none, .eject, .full⟩).run
        ⟨.package, {}, Text.encode "no\n"⟩).1 = .error e) ∧
      ((Explorer.brackets.run ⟨"md", some "p", none, .eject, .full⟩).run
        ⟨.package, {}, Text.encode "no\n"⟩).2.disk = .package := by
  have hsimulate := nothing_touched_without_consent .brackets ⟨"md", some "p", none, .simulate, .full⟩
    ⟨.package, {}, []⟩
  have heject := nothing_touched_without_consent .brackets ⟨"md", some "p", none, .eject, .full⟩
    ⟨.package, {}, Text.encode "no\n"⟩
  have hno : ¬ Confirm.Consents (Text.encode "no\n") := by
    rw [Confirm.consents_encode (by decide)]
    decide
  obtain ⟨hfails, hdisk, -⟩ := heject.2 rfl hno
  exact ⟨hsimulate.1 rfl fun t ht => (Explorer.isPure_brackets ht).keepsDisk, hno, hfails, hdisk⟩

end Inlay
