namespace Inlay

/-- Finite maps, kept as association lists in strictly increasing order of their keys. -/
structure Table (κ α : Type) [Ord κ] where
  entries : List (κ × α)
  increasing : entries.Pairwise fun a b => compare a.1 b.1 = .lt

namespace Table

variable {κ α β : Type} [Ord κ]

def empty : Table κ α := ⟨[], .nil⟩

instance : Inhabited (Table κ α) := ⟨empty⟩

instance [DecidableEq κ] [DecidableEq α] : DecidableEq (Table κ α) := fun a b =>
  decidable_of_iff (a.entries = b.entries) ⟨fun h => by cases a; cases b; cases h; rfl, fun h => h ▸ rfl⟩

def keys (t : Table κ α) : List κ := t.entries.map (·.1)

def size (t : Table κ α) : Nat := t.entries.length

def find (k : κ) : List (κ × α) → Option α
  | [] => none
  | e :: rest => if compare e.1 k = .eq then some e.2 else find k rest

def get? (t : Table κ α) (k : κ) : Option α := find k t.entries

def contains (t : Table κ α) (k : κ) : Bool := (t.get? k).isSome

/-- Places the pair before the first greater key, in the place of an equal one. -/
def place (k : κ) (v : α) : List (κ × α) → List (κ × α)
  | [] => [(k, v)]
  | e :: rest =>
    match compare k e.1 with
    | .lt => (k, v) :: e :: rest
    | .eq => (k, v) :: rest
    | .gt => e :: place k v rest

theorem mem_place {k : κ} {v : α} {e : κ × α} {es : List (κ × α)} (h : e ∈ place k v es) :
    e = (k, v) ∨ e ∈ es := by
  induction es with
  | nil => simpa [place] using h
  | cons f rest ih =>
    unfold place at h
    split at h
    · simpa using h
    · rcases List.mem_cons.1 h with h | h
      · exact .inl h
      · exact .inr (List.mem_cons_of_mem _ h)
    · rcases List.mem_cons.1 h with h | h
      · exact .inr (h ▸ List.mem_cons_self)
      · exact (ih h).imp_right (List.mem_cons_of_mem _)

theorem place_increasing [Std.TransOrd κ] [Std.LawfulEqOrd κ] (k : κ) (v : α)
    {es : List (κ × α)} (h : es.Pairwise fun a b => compare a.1 b.1 = .lt) :
    (place k v es).Pairwise fun a b => compare a.1 b.1 = .lt := by
  induction es with
  | nil => simp [place]
  | cons e rest ih =>
    obtain ⟨he, hr⟩ := List.pairwise_cons.1 h
    unfold place
    split
    · next hk =>
      refine List.pairwise_cons.2 ⟨fun f hf => ?_, h⟩
      rcases List.mem_cons.1 hf with rfl | hf
      · exact hk
      · exact Std.TransCmp.lt_trans hk (he f hf)
    · next hk =>
      have : k = e.1 := Std.LawfulEqCmp.eq_of_compare hk
      exact List.pairwise_cons.2 ⟨fun f hf => this ▸ he f hf, hr⟩
    · next hk =>
      refine List.pairwise_cons.2 ⟨fun f hf => ?_, ih hr⟩
      rcases mem_place hf with rfl | hf
      · exact Std.OrientedCmp.lt_of_gt hk
      · exact he f hf

def insert [Std.TransOrd κ] [Std.LawfulEqOrd κ] (t : Table κ α) (k : κ) (v : α) : Table κ α :=
  ⟨place k v t.entries, place_increasing k v t.increasing⟩

def filter (p : κ → Bool) (t : Table κ α) : Table κ α :=
  ⟨t.entries.filter fun e => p e.1, t.increasing.filter _⟩

def map (f : α → β) (t : Table κ α) : Table κ β :=
  ⟨t.entries.map fun e => (e.1, f e.2), List.pairwise_map.2 t.increasing⟩

/-- Of pairs with equal keys the last one counts. -/
def ofList [Std.TransOrd κ] [Std.LawfulEqOrd κ] (es : List (κ × α)) : Table κ α :=
  es.foldl (fun t e => t.insert e.1 e.2) empty

theorem place_of_lt [Std.OrientedOrd κ] {k : κ} (v : α) {es : List (κ × α)}
    (h : ∀ e ∈ es, compare e.1 k = .lt) : place k v es = es ++ [(k, v)] := by
  induction es with
  | nil => rfl
  | cons e rest ih =>
    obtain ⟨he, hrest⟩ := List.forall_mem_cons.1 h
    rw [place, Std.OrientedCmp.gt_of_lt he]
    simp only [ih hrest, List.cons_append]

theorem find_place_self [Std.LawfulEqOrd κ] (k : κ) (v : α) (es : List (κ × α)) :
    find k (place k v es) = some v := by
  induction es with
  | nil => simp [place, find]
  | cons e rest ih =>
    unfold place
    split
    · simp [find]
    · simp [find]
    · next hk =>
      have : e.1 ≠ k := by rintro rfl; simp at hk
      simp [find, this, ih]

theorem find_place_of_ne [Std.LawfulEqOrd κ] {k j : κ} (v : α) (h : j ≠ k) (es : List (κ × α)) :
    find j (place k v es) = find j es := by
  induction es with
  | nil => simp [place, find, Ne.symm h]
  | cons e rest ih =>
    unfold place
    split
    · simp [find, Ne.symm h]
    · next hk =>
      have : k = e.1 := Std.LawfulEqCmp.eq_of_compare hk
      simp [find, Ne.symm h, ← this]
    · simp [find, ih]

theorem find_of_mem [Std.LawfulEqOrd κ] {k : κ} {v : α} {es : List (κ × α)}
    (h : es.Pairwise fun a b => compare a.1 b.1 = .lt) (hmem : (k, v) ∈ es) : find k es = some v := by
  induction es with
  | nil => cases hmem
  | cons e rest ih =>
    obtain ⟨he, hrest⟩ := List.pairwise_cons.1 h
    rcases List.mem_cons.1 hmem with rfl | hmem
    · simp [find]
    · have hlt := he (k, v) hmem
      rw [find, if_neg (by simp only at hlt; simp [hlt]), ih hrest hmem]

variable [Std.TransOrd κ] [Std.LawfulEqOrd κ]

@[simp] theorem get?_insert_self (t : Table κ α) (k : κ) (v : α) : (t.insert k v).get? k = some v :=
  find_place_self k v t.entries

theorem get?_insert_of_ne (t : Table κ α) {k j : κ} (v : α) (h : j ≠ k) :
    (t.insert k v).get? j = t.get? j :=
  find_place_of_ne v h t.entries

theorem entries_insert_of_lt {t : Table κ α} {k : κ} (v : α) (h : ∀ e ∈ t.entries, compare e.1 k = .lt) :
    (t.insert k v).entries = t.entries ++ [(k, v)] :=
  place_of_lt v h

theorem entries_foldl_insert {t : Table κ α} {es : List (κ × α)}
    (h : (t.entries ++ es).Pairwise fun a b => compare a.1 b.1 = .lt) :
    (es.foldl (fun t e => t.insert e.1 e.2) t).entries = t.entries ++ es := by
  induction es generalizing t with
  | nil => simp
  | cons e rest ih =>
    have hlt : ∀ f ∈ t.entries, compare f.1 e.1 = .lt := fun f hf =>
      (List.pairwise_append.1 h).2.2 f hf e List.mem_cons_self
    have hinsert : (t.insert e.1 e.2).entries = t.entries ++ [e] := entries_insert_of_lt e.2 hlt
    rw [List.append_cons, ← hinsert] at h ⊢
    exact ih h

theorem ofList_entries (t : Table κ α) : ofList t.entries = t := by
  have h := entries_foldl_insert (t := empty) t.increasing
  cases t with
  | mk es hes =>
    generalize hof : ofList es = u
    rw [ofList] at hof
    cases u with
    | mk fs hfs =>
      rw [hof] at h
      cases h
      rfl

omit [Std.TransOrd κ] in
theorem mem_of_find {k : κ} {v : α} {es : List (κ × α)} (h : find k es = some v) : (k, v) ∈ es := by
  induction es with
  | nil => cases h
  | cons e rest ih =>
    rw [find] at h
    split at h
    · next he =>
      obtain rfl := Std.LawfulEqCmp.eq_of_compare he
      cases h
      exact List.mem_cons_self
    · exact List.mem_cons_of_mem _ (ih h)

omit [Std.LawfulEqOrd κ] in
theorem eq_of_mem_iff {es fs : List (κ × α)} (hes : es.Pairwise fun a b => compare a.1 b.1 = .lt)
    (hfs : fs.Pairwise fun a b => compare a.1 b.1 = .lt) (h : ∀ e, e ∈ es ↔ e ∈ fs) : es = fs := by
  have hne {a b : κ × α} (hab : compare a.1 b.1 = .lt) : a ≠ b := by
    rintro rfl
    exact absurd (hab.symm.trans Std.ReflCmp.compare_self) nofun
  refine List.Perm.eq_of_pairwise (fun a b _ _ hab hba => ?_) hes hfs
    ((List.perm_ext_iff_of_nodup (hes.imp hne) (hfs.imp hne)).2 h)
  exact absurd rfl (hne (a := a) (Std.TransCmp.lt_trans hab hba))

omit [Std.TransOrd κ] in
theorem mem_entries {t : Table κ α} {e : κ × α} : e ∈ t.entries ↔ t.get? e.1 = some e.2 :=
  ⟨find_of_mem t.increasing, mem_of_find⟩

theorem eq_of_get? {t u : Table κ α} (h : ∀ k, t.get? k = u.get? k) : t = u := by
  have hentries : t.entries = u.entries :=
    eq_of_mem_iff t.increasing u.increasing fun e => by rw [mem_entries, mem_entries, h]
  cases t
  cases u
  cases hentries
  rfl

omit [Std.TransOrd κ] in
theorem get?_filter (p : κ → Bool) (t : Table κ α) (k : κ) :
    (t.filter p).get? k = if p k then t.get? k else none := by
  refine Option.ext fun v => ?_
  have hmem : (t.filter p).get? k = some v ↔ t.get? k = some v ∧ p k = true := by
    rw [← mem_entries (e := (k, v)), ← mem_entries (e := (k, v))]
    exact List.mem_filter
  rw [hmem]
  cases p k <;> simp

omit [Std.TransOrd κ] [Std.LawfulEqOrd κ] in
@[simp] theorem get?_empty (k : κ) : (empty : Table κ α).get? k = none := rfl

end Table

end Inlay
