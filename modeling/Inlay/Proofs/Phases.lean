import Inlay.Proofs.Substitution

namespace Inlay

def Transpiler.KeepsDisk (t : Transpiler) : Prop := ∀ code, Keeps id (t code)

theorem Transpiler.IsPure.steady {t : Transpiler} (h : t.IsPure) (code : String) : Steady (t code) := by
  obtain ⟨answer, ha⟩ := h
  exact ⟨answer code, ha code⟩

theorem Transpiler.IsPure.keepsDisk {t : Transpiler} (h : t.IsPure) : t.KeepsDisk :=
  fun code => (h.steady code).keeps id

namespace Expansion

theorem ask_keeps {t : Transpiler} (ht : t.KeepsDisk) (target : List Char) (p : Piece) :
    Keeps id (ask t target p) := by
  cases p with
  | plain text => exact .pure _
  | call w code =>
      rw [ask]
      split
      · exact .bind (ht _) fun text => .pure _
      · exact .pure _

theorem ask_steady {t : Transpiler} (ht : t.IsPure) (target : List Char) (p : Piece) :
    Steady (ask t target p) := by
  cases p with
  | plain text => exact .pure _
  | call w code =>
      rw [ask]
      split
      · exact .bind (ht.steady _) fun text => .pure _
      · exact .pure _

end Expansion

namespace Registry

theorem expand_keeps {r : Registry} {target : String}
    (h : ∀ t, r.resolve target = .ok t → t.KeepsDisk) (buffer : String) :
    Keeps id (r.expand buffer target) := by
  intro d
  cases ht : r.resolve target with
  | error e => rw [run_expand_of_error ht]
  | ok t =>
      have hask := Keeps.mapM (Expansion.ask_keeps (h t ht) target.toList) (pieces buffer.toList) d
      rw [run_expand ht]
      split
      · next hparts => rwa [hparts] at hask
      · next hparts => rwa [hparts] at hask

theorem expand_steady {r : Registry} {target : String}
    (h : ∀ t, r.resolve target = .ok t → t.IsPure) (buffer : String) :
    Steady (r.expand buffer target) := by
  cases ht : r.resolve target with
  | error e => exact ⟨.error e, run_expand_of_error ht buffer⟩
  | ok t =>
      obtain ⟨result, hresult⟩ := Steady.mapM (Expansion.ask_steady (h t ht) target.toList) (pieces buffer.toList)
      cases result with
      | error reason => exact ⟨_, fun d => by rw [run_expand ht, hresult]⟩
      | ok parts => exact ⟨_, fun d => by rw [run_expand ht, hresult]⟩

end Registry

namespace Explorer

/-- An eject asks before it processes files; a simulation does not. -/
def gate (q : Request) : Step Unit := if q.mode = .eject then confirm q.dsl else return ()

def present (x : Explorer) (q : Request) (file : Path) (text content : String) : Step Unit :=
  match q.mode with
  | .simulate => do
    Step.emit (Message.simulated q.dsl file)
    Step.emit (x.presenter.render text content q.presentation)
  | .eject => do
    Step.onDisk (persist (x.surroundings file) file content)
    Step.emit (Message.ejected q.dsl file)
    if q.presentation = .diff then
      Step.emit "\n"
      Step.emit (x.presenter.diff text content)

theorem run_of_resolve_error {x : Explorer} {q : Request} {w : World} {e : Error}
    (h : x.resolve w.disk q = .error e) : (x.run q).run w = (.error e, w) := by
  change ((MonadExcept.ofExcept (x.resolve w.disk q) : Step (List Path)) >>= _).run w = _
  rw [h]
  rfl

theorem run_of_resolve_ok {x : Explorer} {q : Request} {w : World} {files : List Path}
    (h : x.resolve w.disk q = .ok files) :
    (x.run q).run w = (do
      gate q
      let changed ← x.processFiles q files
      return ⟨q.mode, q.dsl, files.length, changed⟩ : Step Report).run w := by
  change ((MonadExcept.ofExcept (x.resolve w.disk q) : Step (List Path)) >>= _).run w = _
  rw [h, gate]
  by_cases hm : q.mode = .eject
  · simp only [hm, if_true]
    rfl
  · simp only [hm, if_false]
    rfl

theorem run_processFile_of_error {x : Explorer} {q : Request} {file : Path} {w : World} {e : Error}
    (h : readText w.disk file = .error e) : (x.processFile q file).run w = (.error e, w) := by
  change ((MonadExcept.ofExcept (readText w.disk file) : Step String) >>= _).run w = _
  rw [h]
  rfl

theorem run_processFile_of_ok {x : Explorer} {q : Request} {file : Path} {text : String} {w : World}
    (h : readText w.disk file = .ok text) :
    (x.processFile q file).run w = (do
      let expansion ← Step.onDisk (x.registry.expand text q.dsl)
      if expansion.changed then do
        x.present q file text expansion.content
        return true
      else return false : Step Bool).run w := by
  have hread : (MonadExcept.ofExcept (readText w.disk file) : Step String).run w = (.ok text, w) := by
    rw [run_ofExcept, h]
  refine (run_bind_of_ok hread).trans ?_
  refine congrArg (fun k : Step Bool => k.run w) (bind_congr fun expansion => ?_)
  cases hc : expansion.changed with
  | false => rfl
  | true =>
      unfold present
      cases q.mode with
      | simulate => simp
      | eject => by_cases hp : q.presentation = .diff <;> simp [hp]

end Explorer

end Inlay
