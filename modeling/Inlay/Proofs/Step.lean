import Inlay.Run
import Mathlib.Data.List.Forall2

namespace Inlay

section Stateful

variable {ε ε' σ τ α β : Type}

theorem run_bind_of_ok {k : ExceptT ε (StateM σ) α} {f : α → ExceptT ε (StateM σ) β} {s s' : σ} {a : α}
    (h : k.run s = (.ok a, s')) : (k >>= f).run s = (f a).run s' := by
  change ExceptT.bindCont f (k.run s).1 (k.run s).2 = _
  rw [h]
  rfl

theorem run_bind_of_error {k : ExceptT ε (StateM σ) α} {f : α → ExceptT ε (StateM σ) β} {s s' : σ} {e : ε}
    (h : k.run s = (.error e, s')) : (k >>= f).run s = (.error e, s') := by
  change ExceptT.bindCont f (k.run s).1 (k.run s).2 = _
  rw [h]
  rfl

theorem of_run_bind_ok {k : ExceptT ε (StateM σ) α} {f : α → ExceptT ε (StateM σ) β} {s s'' : σ} {b : β}
    (h : (k >>= f).run s = (.ok b, s'')) :
    ∃ a s', k.run s = (.ok a, s') ∧ (f a).run s' = (.ok b, s'') := by
  obtain ⟨r, s', hk⟩ : ∃ r s', k.run s = (r, s') := ⟨_, _, rfl⟩
  cases r with
  | error e => rw [run_bind_of_error hk] at h; cases h
  | ok a => exact ⟨a, s', hk, run_bind_of_ok hk ▸ h⟩

theorem run_bind_pure_snd (k : ExceptT ε (StateM σ) α) (f : α → β) (s : σ) :
    ((k >>= fun a => pure (f a)).run s).2 = (k.run s).2 := by
  obtain ⟨r, s', hk⟩ : ∃ r s', k.run s = (r, s') := ⟨_, _, rfl⟩
  cases r with
  | error e => rw [run_bind_of_error hk, hk]
  | ok a =>
      rw [run_bind_of_ok hk, hk]
      rfl

/-- What every answer of `f` fulfils, the answers of a successful pass over a list fulfil in turn. -/
theorem forall₂_of_mapM {f : α → ExceptT ε (StateM σ) β} {p : α → β → Prop}
    (hf : ∀ a s b s', (f a).run s = (.ok b, s') → p a b) {as : List α} {bs : List β} {s s' : σ}
    (h : (as.mapM f).run s = (.ok bs, s')) : List.Forall₂ p as bs := by
  induction as generalizing bs s with
  | nil => cases h; exact .nil
  | cons a as ih =>
      rw [List.mapM_cons] at h
      obtain ⟨b, s₁, hb, h⟩ := of_run_bind_ok h
      obtain ⟨bs', s₂, hbs, h⟩ := of_run_bind_ok h
      cases h
      exact .cons (hf a s b s₁ hb) (ih hbs)

theorem run_mapM_of_forall {f : α → ExceptT ε (StateM σ) β} {g : α → β} (hf : ∀ a s, (f a).run s = (.ok (g a), s))
    (as : List α) (s : σ) : (as.mapM f).run s = (.ok (as.map g), s) := by
  induction as with
  | nil => rfl
  | cons a as ih =>
      rw [List.mapM_cons, run_bind_of_ok (hf a s), run_bind_of_ok ih]
      rfl

@[simp] theorem run_ofExcept (o : Except ε α) (s : σ) :
    (MonadExcept.ofExcept o : ExceptT ε (StateM σ) α).run s = (o, s) := by
  cases o <;> rfl

theorem run_adapt (f : ε → ε') (k : ExceptT ε (StateM σ) α) (s : σ) :
    (k.adapt f).run s = ((k.run s).1.mapError f, (k.run s).2) := rfl

theorem run_adapt_eq_ok {f : ε → ε'} {k : ExceptT ε (StateM σ) α} {s s' : σ} {a : α} :
    (k.adapt f).run s = (.ok a, s') ↔ k.run s = (.ok a, s') := by
  rw [run_adapt]
  obtain ⟨r, s₁, h⟩ : ∃ r s₁, k.run s = (r, s₁) := ⟨_, _, rfl⟩
  rw [h]
  cases r with
  | error e => exact ⟨nofun, nofun⟩
  | ok b => exact ⟨fun h => by cases h; rfl, fun h => by cases h; rfl⟩

/-- Whether `k` fails or not, it keeps what `view` shows of the state. -/
def Keeps (view : σ → τ) (k : ExceptT ε (StateM σ) α) : Prop := ∀ s, view (k.run s).2 = view s

namespace Keeps

variable {view : σ → τ}

theorem pure (a : α) : Keeps view (Pure.pure a : ExceptT ε (StateM σ) α) := fun _ => rfl

theorem bind {k : ExceptT ε (StateM σ) α} {f : α → ExceptT ε (StateM σ) β} (hk : Keeps view k)
    (hf : ∀ a, Keeps view (f a)) : Keeps view (k >>= f) := by
  intro s
  obtain ⟨r, s', h⟩ : ∃ r s', k.run s = (r, s') := ⟨_, _, rfl⟩
  have hs : view s' = view s := by simpa [h] using hk s
  cases r with
  | error e => rw [run_bind_of_error h, hs]
  | ok a => rw [run_bind_of_ok h, hf a s', hs]

theorem mapM {f : α → ExceptT ε (StateM σ) β} (hf : ∀ a, Keeps view (f a)) (as : List α) :
    Keeps view (as.mapM f) := by
  induction as with
  | nil => exact pure []
  | cons a as ih =>
      rw [List.mapM_cons]
      exact bind (hf a) fun b => bind ih fun bs => pure (b :: bs)

end Keeps

/-- `k` answers the same in every state, and keeps it. -/
def Steady (k : ExceptT ε (StateM σ) α) : Prop := ∃ r, ∀ s, k.run s = (r, s)

namespace Steady

theorem pure (a : α) : Steady (Pure.pure a : ExceptT ε (StateM σ) α) := ⟨.ok a, fun _ => rfl⟩

theorem bind {k : ExceptT ε (StateM σ) α} {f : α → ExceptT ε (StateM σ) β} (hk : Steady k)
    (hf : ∀ a, Steady (f a)) : Steady (k >>= f) := by
  obtain ⟨r, hr⟩ := hk
  cases r with
  | error e => exact ⟨.error e, fun s => run_bind_of_error (hr s)⟩
  | ok a =>
      obtain ⟨r', hr'⟩ := hf a
      exact ⟨r', fun s => (run_bind_of_ok (hr s)).trans (hr' s)⟩

theorem mapM {f : α → ExceptT ε (StateM σ) β} (hf : ∀ a, Steady (f a)) (as : List α) :
    Steady (as.mapM f) := by
  induction as with
  | nil => exact pure []
  | cons a as ih =>
      rw [List.mapM_cons]
      exact bind (hf a) fun b => bind ih fun bs => pure (b :: bs)

theorem run_eq {k : ExceptT ε (StateM σ) α} (hk : Steady k) (s s' : σ) : k.run s' = ((k.run s).1, s') := by
  obtain ⟨r, hr⟩ := hk
  rw [hr, hr]

theorem keeps {k : ExceptT ε (StateM σ) α} (hk : Steady k) (view : σ → τ) : Keeps view k := by
  intro s
  rw [hk.run_eq s s]

end Steady

/-- From related states `k` answers the same, and related states are left. -/
def Relates (r : σ → σ → Prop) (k : ExceptT ε (StateM σ) α) : Prop :=
  ∀ s s', r s s' → (k.run s').1 = (k.run s).1 ∧ r (k.run s).2 (k.run s').2

theorem Steady.relates {k : ExceptT ε (StateM σ) α} (hk : Steady k) (r : σ → σ → Prop) : Relates r k := by
  obtain ⟨a, ha⟩ := hk
  intro s s' h
  rw [ha, ha]
  exact ⟨rfl, h⟩

namespace Relates

variable {r : σ → σ → Prop}

theorem pure (a : α) : Relates r (Pure.pure a : ExceptT ε (StateM σ) α) := (Steady.pure a).relates r

theorem bind {k : ExceptT ε (StateM σ) α} {f : α → ExceptT ε (StateM σ) β} (hk : Relates r k)
    (hf : ∀ a, Relates r (f a)) : Relates r (k >>= f) := by
  intro s s' h
  obtain ⟨hanswer, hleft⟩ := hk s s' h
  rcases hrun : k.run s with ⟨a, s₁⟩
  rcases hrun' : k.run s' with ⟨a', s₁'⟩
  rw [hrun, hrun'] at hanswer hleft
  obtain rfl : a' = a := hanswer
  cases a' with
  | error e =>
      rw [run_bind_of_error hrun, run_bind_of_error hrun']
      exact ⟨rfl, hleft⟩
  | ok a =>
      rw [run_bind_of_ok hrun, run_bind_of_ok hrun']
      exact hf a s₁ s₁' hleft

theorem adapt {k : ExceptT ε (StateM σ) α} (hk : Relates r k) (f : ε → ε') : Relates r (k.adapt f) := by
  intro s s' h
  obtain ⟨hanswer, hleft⟩ := hk s s' h
  rw [run_adapt, run_adapt, hanswer]
  exact ⟨rfl, hleft⟩

theorem mapM {f : α → ExceptT ε (StateM σ) β} (hf : ∀ a, Relates r (f a)) (as : List α) :
    Relates r (as.mapM f) := by
  induction as with
  | nil => exact pure []
  | cons a as ih =>
      rw [List.mapM_cons]
      exact bind (hf a) fun b => bind ih fun bs => pure (b :: bs)

end Relates

end Stateful

namespace Step

variable {α : Type}

theorem run_emit_of_some {text : String} {w : World} {o : Output} (h : w.output.write text = some o) :
    (emit text).run w = (.ok (), { w with output := o }) := by
  refine (run_bind_of_ok (k := get) rfl).trans ?_
  rw [h]
  rfl

theorem run_emit_of_none {text : String} {w : World} (h : w.output.write text = none) :
    (emit text).run w = (.error (.internal "Failed to write output: output is full"), w) := by
  refine (run_bind_of_ok (k := get) rfl).trans ?_
  rw [h]
  rfl

theorem run_onDisk (k : ExceptT Error (StateM Disk) α) (w : World) :
    (onDisk k).run w = ((k.run w.disk).1, { w with disk := (k.run w.disk).2 }) := by
  change (MonadExcept.ofExcept (k.run w.disk).1 : Step α).run { w with disk := (k.run w.disk).2 } = _
  rw [run_ofExcept]

theorem emit_keeps_disk (text : String) : Keeps World.disk (emit text) := by
  intro w
  cases h : w.output.write text with
  | none => rw [run_emit_of_none h]
  | some o => rw [run_emit_of_some h]

theorem onDisk_keeps_disk {k : ExceptT Error (StateM Disk) α} (hk : Keeps id k) : Keeps World.disk (onDisk k) := by
  intro w
  rw [run_onDisk]
  exact hk w.disk

end Step

end Inlay
