import Inlay.Proofs.Consent

namespace Inlay

namespace World

variable {w w' : World}

def Alike (w w' : World) : Prop := w.disk = w'.disk ∧ w.output = w'.output

theorem Alike.with_output (h : Alike w w') (o : Output) : Alike { w with output := o } { w' with output := o } :=
  ⟨h.1, rfl⟩

end World

namespace Step

variable {α β : Type}

def GivesAlike (r r' : Except Error α × World) : Prop := r.1 = r'.1 ∧ World.Alike r.2 r'.2

def Blind (k : Step α) : Prop := ∀ w w', World.Alike w w' → GivesAlike (k.run w) (k.run w')

namespace Blind

theorem pure (a : α) : Blind (Pure.pure a : Step α) := fun _ _ h => ⟨rfl, h⟩

theorem throw (e : Error) : Blind (MonadExcept.throw e : Step α) := fun _ _ h => ⟨rfl, h⟩

theorem run_bind {k : Step α} {f : α → Step β} {w w' : World} (hk : GivesAlike (k.run w) (k.run w'))
    (hf : ∀ a, Blind (f a)) : GivesAlike ((k >>= f).run w) ((k >>= f).run w') := by
  obtain ⟨r, w₁, h⟩ : ∃ r w₁, k.run w = (r, w₁) := ⟨_, _, rfl⟩
  obtain ⟨r', w₁', h'⟩ : ∃ r w₁, k.run w' = (r, w₁) := ⟨_, _, rfl⟩
  rw [h, h'] at hk
  obtain ⟨rfl, halike⟩ : r = r' ∧ World.Alike w₁ w₁' := hk
  cases r with
  | error e =>
      rw [run_bind_of_error h, run_bind_of_error h']
      exact ⟨rfl, halike⟩
  | ok a =>
      rw [run_bind_of_ok h, run_bind_of_ok h']
      exact hf a w₁ w₁' halike

theorem bind {k : Step α} {f : α → Step β} (hk : Blind k) (hf : ∀ a, Blind (f a)) : Blind (k >>= f) :=
  fun w w' h => run_bind (hk w w' h) hf

theorem emit (text : String) : Blind (emit text) := by
  intro w w' h
  cases ho : w.output.write text with
  | none =>
      rw [run_emit_of_none ho, run_emit_of_none (h.2 ▸ ho)]
      exact ⟨rfl, h⟩
  | some o =>
      rw [run_emit_of_some ho, run_emit_of_some (h.2 ▸ ho)]
      exact ⟨rfl, h.with_output o⟩

theorem onDisk (k : ExceptT Error (StateM Disk) α) : Blind (onDisk k) := by
  intro w w' h
  rw [run_onDisk, run_onDisk, h.1]
  exact ⟨rfl, rfl, h.2⟩

end Blind

end Step

namespace Explorer

open Step

variable {x : Explorer} {q : Request}

theorem blind_present (file : Path) (text content : String) : Blind (x.present q file text content) := by
  unfold present
  cases q.mode with
  | simulate => exact .bind (.emit _) fun _ => .emit _
  | eject =>
      apply Blind.bind (.onDisk _)
      intro _
      apply Blind.bind (.emit _)
      intro _
      split
      · exact .bind (.emit _) fun _ => .emit _
      · exact .pure ()

theorem blind_processFile (file : Path) : Blind (x.processFile q file) := by
  intro w w' h
  cases htext : readText w.disk file with
  | error e =>
      rw [run_processFile_of_error htext, run_processFile_of_error (h.1 ▸ htext)]
      exact ⟨rfl, h⟩
  | ok text =>
      rw [run_processFile_of_ok htext, run_processFile_of_ok (h.1 ▸ htext)]
      apply Blind.bind (.onDisk _) _ w w' h
      intro expansion
      split
      · exact .bind (blind_present _ _ _) fun _ => .pure true
      · exact .pure false

theorem blind_processFiles (files : List Path) : Blind (x.processFiles q files) := by
  induction files with
  | nil => exact .pure []
  | cons file files ih => exact .bind (blind_processFile file) fun changed => .bind ih fun rest => .pure _

theorem run_givesAlike {w w' : World} (h : World.Alike w w')
    (hgate : GivesAlike ((gate q).run w) ((gate q).run w')) : GivesAlike ((x.run q).run w) ((x.run q).run w') := by
  cases hfiles : x.resolve w.disk q with
  | error e =>
      rw [run_of_resolve_error hfiles, run_of_resolve_error (h.1 ▸ hfiles)]
      exact ⟨rfl, h⟩
  | ok files =>
      rw [run_of_resolve_ok hfiles, run_of_resolve_ok (h.1 ▸ hfiles)]
      exact Blind.run_bind hgate fun _ => .bind (blind_processFiles files) fun changed => .pure _

end Explorer

namespace Confirm

def Declines (input : Bytes) : Prop :=
  ∃ line text, IsFirstLine line input ∧ Text.decode? line = some text ∧ Text.trim text ≠ "yes"

def IsUnreadable (input : Bytes) : Prop := ∃ line, IsFirstLine line input ∧ Text.decode? line = none

def SameAnswer (i i' : Bytes) : Prop :=
  (Consents i ∧ Consents i') ∨ (Declines i ∧ Declines i') ∨ (IsUnreadable i ∧ IsUnreadable i')

theorem declines_iff {input : Bytes} :
    Declines input ↔ ∃ text, Text.decode? (cutLine input).1 = some text ∧ isConfirmed text = false := by
  simp only [Declines, isFirstLine_iff, isConfirmed, token, beq_eq_false_iff_ne]
  constructor
  · rintro ⟨line, text, rfl, h⟩
    exact ⟨text, h⟩
  · rintro ⟨text, h⟩
    exact ⟨_, text, rfl, h⟩

theorem isUnreadable_iff {input : Bytes} : IsUnreadable input ↔ Text.decode? (cutLine input).1 = none := by
  simp only [IsUnreadable, isFirstLine_iff]
  constructor
  · rintro ⟨line, rfl, h⟩
    exact h
  · exact fun h => ⟨_, rfl, h⟩

end Confirm

namespace Explorer

open Step

theorem run_confirm_of_declines {dsl : String} {w : World} {o : Output}
    (ho : w.output.write (Message.prompt dsl) = some o) (h : Confirm.Declines w.input) :
    (confirm dsl).run w = (do emit Message.declined; throw (.confirmationDeclined dsl) : Step Unit).run
      { w with output := o, input := (Confirm.cutLine w.input).2 } := by
  obtain ⟨line, hline, hno⟩ := Confirm.declines_iff.1 h
  have hanswer : readAnswer.run { w with output := o } =
      (.ok line, { w with output := o, input := (Confirm.cutLine w.input).2 }) := run_readAnswer_of_text hline
  rw [confirm, run_bind_of_ok (run_emit_of_some ho), run_bind_of_ok hanswer, hno]
  rfl

theorem run_confirm_of_isUnreadable {dsl : String} {w : World} {o : Output}
    (ho : w.output.write (Message.prompt dsl) = some o) (h : Confirm.IsUnreadable w.input) :
    (confirm dsl).run w = (.error (.internal ("Failed to read confirmation: " ++ Confirm.Fault.notUtf8.message)),
      { w with output := o, input := (Confirm.cutLine w.input).2 }) := by
  rw [confirm, run_bind_of_ok (run_emit_of_some ho)]
  exact run_bind_of_error (run_readAnswer_of_no_text (w := { w with output := o }) (Confirm.isUnreadable_iff.1 h))

theorem run_confirm_givesAlike (dsl : String) {w w' : World} (h : World.Alike w w')
    (hanswer : Confirm.SameAnswer w.input w'.input) :
    GivesAlike ((confirm dsl).run w) ((confirm dsl).run w') := by
  cases ho : w.output.write (Message.prompt dsl) with
  | none =>
      rw [confirm, run_bind_of_error (run_emit_of_none ho), run_bind_of_error (run_emit_of_none (h.2 ▸ ho))]
      exact ⟨rfl, h⟩
  | some o =>
      have ho' : w'.output.write (Message.prompt dsl) = some o := h.2 ▸ ho
      rcases hanswer with ⟨hi, hi'⟩ | ⟨hi, hi'⟩ | ⟨hi, hi'⟩
      · rw [run_confirm_of_consents ho hi, run_confirm_of_consents ho' hi']
        exact ⟨rfl, h.1, rfl⟩
      · rw [run_confirm_of_declines ho hi, run_confirm_of_declines ho' hi']
        exact Blind.bind (.emit _) (fun _ => .throw _) _ _ ⟨h.1, rfl⟩
      · rw [run_confirm_of_isUnreadable ho hi, run_confirm_of_isUnreadable ho' hi']
        exact ⟨rfl, h.1, rfl⟩

end Explorer

namespace Request

def NamesOneTarget (q : Request) : Prop :=
  Xor (∃ key, q.packageKey = some key ∧ key ≠ "") (∃ path, q.fusionFile = some path ∧ path ≠ [])

theorem target_of_not_namesOneTarget {q : Request} (h : ¬ q.NamesOneTarget) :
    q.target = .error .invalidTargetSelection := by
  have hkey : (∃ key, q.packageKey = some key ∧ key ≠ "") ↔ ∃ key, q.packageKey.filter (!·.isEmpty) = some key := by
    simp [Option.filter_eq_some_iff]
  have hpath : (∃ path, q.fusionFile = some path ∧ path ≠ []) ↔ ∃ path, q.fusionFile.filter (!·.isEmpty) = some path := by
    simp [Option.filter_eq_some_iff]
  rw [NamesOneTarget, hkey, hpath] at h
  unfold target
  cases hk : q.packageKey.filter (!·.isEmpty) with
  | none =>
      cases hf : q.fusionFile.filter (!·.isEmpty) with
      | none => rfl
      | some path => simp [hk, hf, Xor] at h
  | some key =>
      cases hf : q.fusionFile.filter (!·.isEmpty) with
      | none => simp [hk, hf, Xor] at h
      | some path => rfl

end Request

namespace Explorer

variable {x : Explorer} {q : Request}

theorem resolve_of_known (hdsl : q.dsl ∈ x.registry.identifiers) (d : Disk) :
    x.resolve d q = (q.target >>= x.files d) := by
  have hcontains : x.registry.contains q.dsl = true := Registry.contains_iff.2 hdsl
  simp [resolve, hcontains]

theorem resolve_of_unknown (hdsl : q.dsl ∉ x.registry.identifiers) (d : Disk) :
    x.resolve d q = .error (.unknownIdentifier q.dsl) := by
  have hcontains : x.registry.contains q.dsl = false := by
    rw [← Bool.not_eq_true, Registry.contains_iff]
    exact hdsl
  simp [resolve, hcontains]

end Explorer

/-- An unknown identifier, a wrong choice of the target and a target that cannot be resolved are told
before anything is shown, asked or expanded, in this order. A simulation is the same for every input,
and an eject for all inputs whose first lines answer the same. -/
theorem earlier_checks_decide (x : Explorer) (q : Request) :
    (q.dsl ∉ x.registry.identifiers → ∀ w, (x.run q).run w = (.error (.unknownIdentifier q.dsl), w)) ∧
    (q.dsl ∈ x.registry.identifiers → ¬ q.NamesOneTarget →
      ∀ w, (x.run q).run w = (.error .invalidTargetSelection, w)) ∧
    (q.dsl ∈ x.registry.identifiers → ∀ target d e, q.target = .ok target → x.files d target = .error e →
      ∀ (mode : Mode) (presentation : Presentation) (r : Registry),
        (∀ i, i ∈ r.identifiers ↔ i ∈ x.registry.identifiers) → ∀ w : World, w.disk = d →
          (({ x with registry := r } : Explorer).run { q with mode, presentation }).run w = (.error e, w)) ∧
    (q.mode = .simulate → ∀ w w', World.Alike w w' → Step.GivesAlike ((x.run q).run w) ((x.run q).run w')) ∧
    (q.mode = .eject → ∀ w w', World.Alike w w' → Confirm.SameAnswer w.input w'.input →
      Step.GivesAlike ((x.run q).run w) ((x.run q).run w')) := by
  refine ⟨?unknown, ?selection, ?target, ?simulate, ?eject⟩
  case unknown =>
    intro hdsl w
    exact Explorer.run_of_resolve_error (Explorer.resolve_of_unknown hdsl w.disk)
  case selection =>
    intro hdsl hselection w
    apply Explorer.run_of_resolve_error
    rw [Explorer.resolve_of_known hdsl, Request.target_of_not_namesOneTarget hselection]
    rfl
  case target =>
    intro hdsl target d e htarget hfiles mode presentation r hr w hw
    apply Explorer.run_of_resolve_error
    have hresolve : x.resolve w.disk { q with mode, presentation } = .error e := by
      have htarget' : ({ q with mode, presentation } : Request).target = .ok target := htarget
      have hknown := Explorer.resolve_of_known (q := { q with mode, presentation }) hdsl w.disk
      rw [hknown, htarget', hw, ← hfiles]
      rfl
    rw [Explorer.resolve_with_registry hr, hresolve]
  case simulate =>
    intro hq w w' h
    apply Explorer.run_givesAlike h
    simp only [Explorer.gate, hq]
    exact Step.Blind.pure () w w' h
  case eject =>
    intro hq w w' h hanswer
    apply Explorer.run_givesAlike h
    rw [Explorer.gate, if_pos hq]
    exact Explorer.run_confirm_givesAlike q.dsl h hanswer

theorem checks_of_brackets :
    let world (input : String) : World := ⟨.package, {}, Text.encode input⟩
    (Explorer.brackets.run ⟨"b", none, none, .eject, .full⟩).run (world "") =
        (.error (.unknownIdentifier "b"), world "") ∧
      (Explorer.brackets.run ⟨"md", some "p", some "/p/a.fusion", .eject, .full⟩).run (world "") =
        (.error .invalidTargetSelection, world "") ∧
      (Explorer.brackets.run ⟨"md", some "q", none, .eject, .diff⟩).run (world "yes") =
        (.error (.packageNotFound "q"), world "yes") ∧
      Step.GivesAlike ((Explorer.brackets.run ⟨"md", some "p", none, .simulate, .full⟩).run (world "no"))
        ((Explorer.brackets.run ⟨"md", some "p", none, .simulate, .full⟩).run (world "")) ∧
      Step.GivesAlike ((Explorer.brackets.run ⟨"md", some "p", none, .eject, .full⟩).run (world "yes"))
        ((Explorer.brackets.run ⟨"md", some "p", none, .eject, .full⟩).run (world "\tyes\r\n")) := by
  intro world
  have hidentifiers : Explorer.brackets.registry.identifiers = ["md"] := by decide
  have hmd : "md" ∈ Explorer.brackets.registry.identifiers := by simp [hidentifiers]
  have hfiles : Explorer.brackets.files .package (.package "q") = .error (.packageNotFound "q") := rfl
  have hyes : Confirm.SameAnswer (Text.encode "yes") (Text.encode "\tyes\r\n") := by
    refine .inl ⟨?_, ?_⟩
    · rw [Confirm.consents_encode (by decide)]
      decide
    · rw [Confirm.consents_encode (by decide)]
      decide
  have hpath : ("/p/a.fusion" : Path) ≠ [] := by decide
  have htwo : ¬Request.NamesOneTarget ⟨"md", some "p", some "/p/a.fusion", .eject, .full⟩ := by
    simp [Request.NamesOneTarget, Xor, hpath]
  refine ⟨?_, ?_, ?_, ?_, ?_⟩
  · exact (earlier_checks_decide _ _).1 (by simp [hidentifiers]) _
  · exact (earlier_checks_decide _ _).2.1 hmd htwo _
  · exact (earlier_checks_decide _ ⟨"md", some "q", none, .simulate, .full⟩).2.2.1 hmd _ _ _ rfl hfiles .eject .diff
      Registry.brackets (fun _ => .rfl) _ rfl
  · exact (earlier_checks_decide _ _).2.2.2.1 rfl _ _ ⟨rfl, rfl⟩
  · exact (earlier_checks_decide _ _).2.2.2.2 rfl _ _ ⟨rfl, rfl⟩ hyes

end Inlay
