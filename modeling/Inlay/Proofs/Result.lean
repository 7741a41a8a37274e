import Mathlib.Data.List.Basic

namespace Inlay

variable {ε α β : Type} {f : α → Except ε β} {a : α} {as : List α} {bs : List β}

@[simp] theorem bind_eq_ok {x : Except ε α} {g : α → Except ε β} {b : β} :
    x >>= g = .ok b ↔ ∃ a, x = .ok a ∧ g a = .ok b := by
  cases x with
  | error e => exact iff_of_false nofun nofun
  | ok a => exact ⟨fun h => ⟨a, rfl, h⟩, fun ⟨_, rfl, h⟩ => h⟩

@[simp] theorem map_eq_ok {x : Except ε α} {g : α → β} {b : β} : x.map g = .ok b ↔ ∃ a, x = .ok a ∧ g a = b := by
  cases x with
  | error e => exact iff_of_false nofun nofun
  | ok a => simp [Except.map]

theorem mapM_cons_eq_ok (h : (a :: as).mapM f = .ok bs) :
    ∃ b bs', f a = .ok b ∧ as.mapM f = .ok bs' ∧ bs = b :: bs' := by
  rw [List.mapM_cons] at h
  cases ha : f a with
  | error e =>
      rw [ha] at h
      cases h
  | ok b =>
      cases has : as.mapM f with
      | error e =>
          rw [ha, has] at h
          cases h
      | ok bs' =>
          rw [ha, has] at h
          cases h
          exact ⟨b, bs', rfl, rfl, rfl⟩

theorem exists_of_mem_mapM (h : as.mapM f = .ok bs) {b : β} (hb : b ∈ bs) : ∃ a ∈ as, f a = .ok b := by
  induction as generalizing bs with
  | nil =>
      cases h
      cases hb
  | cons a as ih =>
      obtain ⟨b', bs, ha, has, rfl⟩ := mapM_cons_eq_ok h
      obtain rfl | hb := List.mem_cons.1 hb
      · exact ⟨a, List.mem_cons_self, ha⟩
      · obtain ⟨a', ha', hab⟩ := ih has hb
        exact ⟨a', List.mem_cons_of_mem _ ha', hab⟩

theorem exists_of_mapM_eq_ok (h : as.mapM f = .ok bs) (ha : a ∈ as) : ∃ b ∈ bs, f a = .ok b := by
  induction as generalizing bs with
  | nil => cases ha
  | cons a' as ih =>
      obtain ⟨b, bs, hb, hbs, rfl⟩ := mapM_cons_eq_ok h
      obtain rfl | ha := List.mem_cons.1 ha
      · exact ⟨b, List.mem_cons_self, hb⟩
      · obtain ⟨b', hb', hab⟩ := ih hbs ha
        exact ⟨b', List.mem_cons_of_mem _ hb', hab⟩

theorem exists_of_mapM_eq_error {e : ε} (h : as.mapM f = .error e) : ∃ a ∈ as, f a = .error e := by
  induction as with
  | nil => cases h
  | cons a as ih =>
      rw [List.mapM_cons] at h
      cases ha : f a with
      | error e' =>
          rw [ha] at h
          cases h
          exact ⟨a, List.mem_cons_self, ha⟩
      | ok b =>
          cases has : as.mapM f with
          | error e' =>
              rw [ha, has] at h
              cases h
              obtain ⟨a', ha', hf⟩ := ih has
              exact ⟨a', List.mem_cons_of_mem _ ha', hf⟩
          | ok bs =>
              rw [ha, has] at h
              cases h

theorem pairwise_of_mapM {r : α → α → Prop} {q : β → β → Prop} (h : as.mapM f = .ok bs) (has : as.Pairwise r)
    (hf : ∀ a ∈ as, ∀ a' ∈ as, r a a' → ∀ b b', f a = .ok b → f a' = .ok b' → q b b') : bs.Pairwise q := by
  induction as generalizing bs with
  | nil =>
      cases h
      exact .nil
  | cons a as ih =>
      obtain ⟨b, bs, hb, hbs, rfl⟩ := mapM_cons_eq_ok h
      obtain ⟨hfirst, hrest⟩ := List.pairwise_cons.1 has
      refine List.pairwise_cons.2 ⟨fun b' hb' => ?_, ?_⟩
      · obtain ⟨a', ha', hab⟩ := exists_of_mem_mapM hbs hb'
        exact hf a List.mem_cons_self a' (List.mem_cons_of_mem _ ha') (hfirst a' ha') b b' hb hab
      · exact ih hbs hrest fun a ha a' ha' => hf a (List.mem_cons_of_mem _ ha) a' (List.mem_cons_of_mem _ ha')

theorem mapM_eq_ok {g : α → β} (h : ∀ a ∈ as, f a = .ok (g a)) : as.mapM f = .ok (as.map g) := by
  induction as with
  | nil => rfl
  | cons a as ih =>
      rw [List.mapM_cons, h a List.mem_cons_self, ih fun b hb => h b (List.mem_cons_of_mem _ hb)]
      rfl

end Inlay
