import Inlay.Registry
import Inlay.Proofs.Consent
import Inlay.Proofs.Utf8

namespace Inlay

structure Registration where
  identifier : String
  transpiler : Transpiler

namespace Registry

variable {env : Environment} {i : String} {t : Transpiler} {accepted : List Registration}

def IsLast (accepted : List Registration) (i : String) (t : Transpiler) : Prop :=
  ∃ before after, accepted = before ++ ⟨i, t⟩ :: after ∧ ∀ a ∈ after, a.identifier ≠ i

theorem not_isLast_nil : ¬ IsLast [] i t := by
  rintro ⟨before, after, heq, -⟩
  simp at heq

theorem isLast_append_singleton {a : Registration} :
    IsLast (accepted ++ [a]) i t ↔ a = ⟨i, t⟩ ∨ a.identifier ≠ i ∧ IsLast accepted i t := by
  constructor
  · rintro ⟨before, after, heq, hafter⟩
    rcases List.eq_nil_or_concat after with rfl | ⟨after, b, rfl⟩
    · obtain ⟨-, hlast⟩ := List.append_inj' heq rfl
      exact .inl (List.singleton_inj.1 hlast)
    · have heq : accepted ++ [a] = (before ++ ⟨i, t⟩ :: after) ++ [b] := by simpa using heq
      obtain ⟨haccepted, hlast⟩ := List.append_inj' heq rfl
      obtain rfl := List.singleton_inj.1 hlast
      refine .inr ⟨hafter a (by simp), before, after, haccepted, fun c hc => ?_⟩
      exact hafter c (by simp [hc])
  · rintro (rfl | ⟨hne, before, after, rfl, hafter⟩)
    · exact ⟨accepted, [], rfl, by simp⟩
    · refine ⟨before, after ++ [a], by simp, fun c hc => ?_⟩
      rcases List.mem_append.1 hc with hc | hc
      · exact hafter c hc
      · obtain rfl := List.mem_singleton.1 hc
        exact hne

/-! ### Histories -/

structure Held where
  registry : Registry
  accepted : List Registration

/-- A registration that is rejected leaves no trace. -/
def Held.register (h : Held) (a : Registration) : Held :=
  match h.registry.register a.identifier a.transpiler with
  | .ok r => ⟨r, h.accepted ++ [a]⟩
  | .error _ => h

inductive Begins (env : Environment) : Held → Prop
  | empty : Begins env ⟨.empty, []⟩
  | settings {s : Settings} {r : Registry} : ofSettings env s = .ok r →
      Begins env ⟨r, s.dsl.entries.map fun e => ⟨e.1, e.2.transpiler env⟩⟩

/-- The registries are told apart by their places. A clone gets the next place. -/
inductive Call
  | register (place : Nat) (a : Registration)
  | clone (place : Nat)

namespace Call

def Changes (place : Nat) : Call → Prop
  | .register target _ => target = place
  | .clone _ => False

def apply (hs : List Held) : Call → List Held
  | .register place a => hs.modify place (·.register a)
  | .clone place => hs ++ hs[place]?.toList

def run (hs : List Held) (calls : List Call) : List Held := calls.foldl apply hs

variable {hs : List Held} {place : Nat}

theorem getElem?_apply {c : Call} (hplace : place < hs.length) (hc : ¬ c.Changes place) :
    (c.apply hs)[place]? = hs[place]? := by
  cases c with
  | register target a => exact List.getElem?_modify_ne _ _ hc
  | clone source => exact List.getElem?_append_left hplace

theorem length_le_apply (hs : List Held) (c : Call) : hs.length ≤ (c.apply hs).length := by
  cases c with
  | register place a => simp [apply]
  | clone place => simp [apply]

theorem getElem?_run {calls : List Call} (hplace : place < hs.length) (hcalls : ∀ c ∈ calls, ¬ c.Changes place) :
    (run hs calls)[place]? = hs[place]? := by
  induction calls generalizing hs with
  | nil => rfl
  | cons c rest ih =>
      obtain ⟨hc, hrest⟩ := List.forall_mem_cons.1 hcalls
      have hgrown : place < (c.apply hs).length := hplace.trans_le (length_le_apply hs c)
      exact (ih hgrown hrest).trans (getElem?_apply hplace hc)

theorem getElem?_clone (hplace : place < hs.length) : ((clone place).apply hs)[hs.length]? = hs[place]? := by
  simp [apply, hplace]

theorem forall_mem_run {P : Held → Prop} (hregister : ∀ h a, P h → P (h.register a)) {calls : List Call}
    (hhs : ∀ h ∈ hs, P h) : ∀ h ∈ run hs calls, P h := by
  -- the invariant is carried over all registries at once, as a clone takes it from any of them
  induction calls generalizing hs with
  | nil => exact hhs
  | cons c rest ih =>
      apply ih
      intro h hmem
      cases c with
      | register place a =>
          obtain ⟨k, hk⟩ := List.mem_iff_getElem?.1 hmem
          simp only [apply, List.getElem?_modify, Option.map_eq_map, Option.map_eq_some_iff] at hk
          obtain ⟨g, hg, rfl⟩ := hk
          have hP := hhs g (List.mem_of_getElem? hg)
          split
          · exact hregister g a hP
          · exact hP
      | clone place =>
          rcases List.mem_append.1 hmem with hmem | hmem
          · exact hhs h hmem
          · exact hhs h (List.mem_of_getElem? (Option.mem_toList.1 hmem))

end Call

/-! ### What a history leaves -/

theorem register_of_isIdentifier {r : Registry} (h : isIdentifier i) :
    r.register i t = .ok ⟨r.transpilers.insert i t⟩ := if_pos h

theorem register_of_not_isIdentifier {r : Registry} (h : ¬ isIdentifier i) :
    r.register i t = .error (.invalidIdentifier i) := if_neg h

theorem Held.register_of_not_isIdentifier {h : Held} {a : Registration} (ha : ¬ isIdentifier a.identifier) :
    h.register a = h := by
  rw [register, Registry.register_of_not_isIdentifier ha]

/-- The table of a registry holds what was last accepted, and only valid identifiers. -/
structure Held.Follows (h : Held) : Prop where
  get?_iff : ∀ i t, h.registry.transpilers.get? i = some t ↔ IsLast h.accepted i t
  valid : ∀ a ∈ h.accepted, isIdentifier a.identifier

theorem Held.Follows.empty : Follows ⟨.empty, []⟩ where
  get?_iff i t := by simp [Registry.empty, not_isLast_nil]
  valid := by simp

theorem Held.Follows.register {h : Held} (hf : h.Follows) (a : Registration) : (h.register a).Follows := by
  by_cases ha : isIdentifier a.identifier
  · rw [Held.register, register_of_isIdentifier ha]
    constructor
    · intro i t
      rw [isLast_append_singleton, ← hf.get?_iff]
      obtain ⟨j, u⟩ := a
      by_cases hi : i = j
      · subst hi
        simp
      · simp [Table.get?_insert_of_ne, hi, Ne.symm hi]
    · intro b hb
      rcases List.mem_append.1 hb with hb | hb
      · exact hf.valid b hb
      · obtain rfl := List.mem_singleton.1 hb
        exact ha
  · rwa [Held.register_of_not_isIdentifier ha]

theorem registerAll_cons (env : Environment) (r : Registry) (d : Descriptor) (rest : List (String × Descriptor)) :
    r.registerAll env ((i, d) :: rest) = r.register i (d.transpiler env) >>= fun r => r.registerAll env rest := rfl

theorem Held.Follows.registerAll {es : List (String × Descriptor)} {r r' : Registry}
    (hf : Follows ⟨r, accepted⟩) (hr : r.registerAll env es = .ok r') :
    Follows ⟨r', accepted ++ es.map fun e => ⟨e.1, e.2.transpiler env⟩⟩ := by
  induction es generalizing r accepted with
  | nil =>
      cases hr
      simpa using hf
  | cons e rest ih =>
      obtain ⟨i, d⟩ := e
      rw [registerAll_cons] at hr
      by_cases hi : isIdentifier i
      · rw [register_of_isIdentifier hi] at hr
        have hnext := hf.register ⟨i, d.transpiler env⟩
        rw [Held.register, register_of_isIdentifier hi] at hnext
        simpa using ih hnext hr
      · rw [Registry.register_of_not_isIdentifier hi] at hr
        cases hr

theorem Begins.follows {h : Held} (hb : Begins env h) : h.Follows := by
  cases hb with
  | empty => exact .empty
  | settings hr => exact Held.Follows.empty.registerAll hr

/-- Everything a registry can be asked agrees with the registrations it has accepted. -/
structure Held.IsMap (h : Held) : Prop where
  resolve_ok : ∀ i t, h.registry.resolve i = .ok t ↔ IsLast h.accepted i t
  resolve_error : ∀ i e, h.registry.resolve i = .error e ↔
    e = .unknownIdentifier i ∧ ¬ ∃ t, IsLast h.accepted i t
  contains : ∀ i, h.registry.contains i = true ↔ ∃ t, h.registry.resolve i = .ok t
  mem : ∀ i, i ∈ h.registry.identifiers ↔ ∃ t, h.registry.resolve i = .ok t
  valid : ∀ i ∈ h.registry.identifiers, isIdentifier i
  increasing : h.registry.identifiers.Pairwise fun i j => Text.encode i < Text.encode j
  size : h.registry.size = h.registry.identifiers.length
  isEmpty : h.registry.isEmpty = true ↔ h.registry.identifiers = []

theorem resolve_eq_ok {r : Registry} : r.resolve i = .ok t ↔ r.transpilers.get? i = some t := by
  unfold resolve
  cases r.transpilers.get? i <;> simp

theorem resolve_eq_error {r : Registry} {e : Error} :
    r.resolve i = .error e ↔ e = .unknownIdentifier i ∧ r.transpilers.get? i = none := by
  unfold resolve
  cases r.transpilers.get? i <;> simp [eq_comm]

theorem contains_iff_resolve {r : Registry} : r.contains i = true ↔ ∃ t, r.resolve i = .ok t := by
  simp only [resolve_eq_ok]
  exact Option.isSome_iff_exists

theorem identifiers_increasing (r : Registry) :
    r.identifiers.Pairwise fun i j => Text.encode i < Text.encode j := by
  refine List.pairwise_map.2 (r.transpilers.increasing.imp fun {a b} hab => ?_)
  exact Text.encode_lt_encode_iff.2 (compare_lt_iff_lt.1 hab)

theorem Held.Follows.isMap {h : Held} (hf : h.Follows) : h.IsMap where
  resolve_ok i t := resolve_eq_ok.trans (hf.get?_iff i t)
  resolve_error i e := by
    simp only [resolve_eq_error, ← hf.get?_iff, Option.eq_none_iff_forall_ne_some, not_exists, ne_eq]
  contains i := contains_iff_resolve
  mem i := contains_iff.symm.trans contains_iff_resolve
  valid i hi := by
    obtain ⟨t, ht⟩ := contains_iff_resolve.1 (contains_iff.2 hi)
    obtain ⟨before, after, heq, -⟩ := (hf.get?_iff i t).1 (resolve_eq_ok.1 ht)
    exact hf.valid ⟨i, t⟩ (by simp [heq])
  increasing := h.registry.identifiers_increasing
  size := (List.length_map _).symm
  isEmpty := by simp [isEmpty, Registry.size, Table.size, identifiers, Table.keys]

/-! ### The registry of settings -/

theorem registerAll_of_find?_eq_some {e : String × Descriptor} {es : List (String × Descriptor)} {r : Registry}
    (h : es.find? (fun e => !isIdentifier e.1) = some e) :
    r.registerAll env es = .error (.invalidIdentifier e.1) := by
  induction es generalizing r with
  | nil => cases h
  | cons f rest ih =>
      obtain ⟨i, d⟩ := f
      rw [registerAll_cons]
      by_cases hi : isIdentifier i
      · rw [List.find?_cons_of_neg (by simp [hi])] at h
        rw [register_of_isIdentifier hi]
        exact ih h
      · rw [List.find?_cons_of_pos (by simp [hi])] at h
        cases h
        rw [Registry.register_of_not_isIdentifier hi]
        rfl

theorem exists_registerAll {es : List (String × Descriptor)} {r : Registry} (hvalid : ∀ e ∈ es, isIdentifier e.1)
    (hsorted : (r.identifiers ++ es.map (·.1)).Pairwise fun i j => compare i j = .lt) :
    ∃ r', r.registerAll env es = .ok r' ∧ r'.identifiers = r.identifiers ++ es.map (·.1) := by
  induction es generalizing r with
  | nil => exact ⟨r, rfl, by simp⟩
  | cons e rest ih =>
      obtain ⟨i, d⟩ := e
      obtain ⟨hi, hrest⟩ := List.forall_mem_cons.1 hvalid
      have hlt : ∀ e ∈ r.transpilers.entries, compare e.1 i = .lt := fun e he =>
        (List.pairwise_append.1 hsorted).2.2 e.1 (List.mem_map_of_mem he) i List.mem_cons_self
      have hinsert : (⟨r.transpilers.insert i (d.transpiler env)⟩ : Registry).identifiers = r.identifiers ++ [i] := by
        simp [identifiers, Table.keys, Table.entries_insert_of_lt _ hlt]
      rw [List.map_cons, List.append_cons, ← hinsert] at hsorted
      obtain ⟨r', hr', hkeys⟩ := ih hrest hsorted
      refine ⟨r', ?_, ?_⟩
      · rw [registerAll_cons, register_of_isIdentifier hi]
        exact hr'
      · rw [hkeys, hinsert, List.append_assoc]
        rfl

def IsLeastInvalid (s : Settings) (i : String) : Prop :=
  i ∈ s.dsl.keys ∧ ¬ isIdentifier i ∧
    ∀ j ∈ s.dsl.keys, ¬ isIdentifier j → j = i ∨ Text.encode i < Text.encode j

theorem IsLeastInvalid.unique {s : Settings} {i j : String} (hi : IsLeastInvalid s i) (hj : IsLeastInvalid s j) :
    i = j := by
  rcases hi.2.2 j hj.1 hj.2.1 with h | hij
  · exact h.symm
  · rcases hj.2.2 i hi.1 hi.2.1 with h | hji
    · exact h
    · exact absurd hji (List.lt_asymm hij)

theorem ofSettings_of_valid (env : Environment) {s : Settings} (h : ∀ i ∈ s.dsl.keys, isIdentifier i) :
    ∃ r, ofSettings env s = .ok r ∧ r.identifiers = s.dsl.keys := by
  apply exists_registerAll (r := empty)
  · exact fun e he => h e.1 (List.mem_map_of_mem he)
  · exact List.pairwise_map.2 s.dsl.increasing

theorem exists_ofSettings_of_invalid (env : Environment) {s : Settings} (h : ¬ ∀ i ∈ s.dsl.keys, isIdentifier i) :
    ∃ i, ofSettings env s = .error (.invalidIdentifier i) ∧ IsLeastInvalid s i := by
  cases hfind : s.dsl.entries.find? fun e => !isIdentifier e.1 with
  | none =>
      refine absurd (fun i hi => ?_) h
      obtain ⟨e, he, rfl⟩ := List.mem_map.1 hi
      simpa using List.find?_eq_none.1 hfind e he
  | some e =>
      obtain ⟨he, before, after, hentries, hbefore⟩ := List.find?_eq_some_iff_append.1 hfind
      refine ⟨e.1, registerAll_of_find?_eq_some hfind, ?_, by simpa using he, fun j hj hinvalid => ?_⟩
      · exact List.mem_map_of_mem (by simp [hentries])
      · obtain ⟨f, hf, rfl⟩ := List.mem_map.1 hj
        have hsorted := s.dsl.increasing
        rw [hentries] at hf hsorted
        rcases List.mem_append.1 hf with hf | hf
        · exact absurd (by simpa using hbefore f hf) hinvalid
        · rcases List.mem_cons.1 hf with rfl | hf
          · exact .inl rfl
          · have hlt := (List.pairwise_cons.1 (List.pairwise_append.1 hsorted).2.1).1 f hf
            exact .inr (Text.encode_lt_encode_iff.2 (compare_lt_iff_lt.1 hlt))

theorem ofSettings_eq_ok_iff (env : Environment) (s : Settings) :
    (∃ r, ofSettings env s = .ok r) ↔ ∀ i ∈ s.dsl.keys, isIdentifier i := by
  constructor
  · rintro ⟨r, hr⟩
    by_contra hinvalid
    obtain ⟨i, hi, -⟩ := exists_ofSettings_of_invalid env hinvalid
    rw [hr] at hi
    cases hi
  · intro hvalid
    obtain ⟨r, hr, -⟩ := ofSettings_of_valid env hvalid
    exact ⟨r, hr⟩

theorem identifiers_of_ofSettings {s : Settings} {r : Registry} (hr : ofSettings env s = .ok r) :
    r.identifiers = s.dsl.keys := by
  obtain ⟨r', hr', hkeys⟩ := ofSettings_of_valid env ((ofSettings_eq_ok_iff env s).1 ⟨r, hr⟩)
  rw [hr] at hr'
  cases hr'
  exact hkeys

theorem ofSettings_eq_error_iff {s : Settings} {e : Error} :
    ofSettings env s = .error e ↔ ∃ i, e = .invalidIdentifier i ∧ IsLeastInvalid s i := by
  by_cases hvalid : ∀ i ∈ s.dsl.keys, isIdentifier i
  · obtain ⟨r, hr, -⟩ := ofSettings_of_valid env hvalid
    refine iff_of_false (by simp [hr]) ?_
    rintro ⟨i, -, hi⟩
    exact hi.2.1 (hvalid i hi.1)
  · obtain ⟨i, hi, hleast⟩ := exists_ofSettings_of_invalid env hvalid
    rw [hi]
    constructor
    · intro h
      cases h
      exact ⟨i, rfl, hleast⟩
    · rintro ⟨j, rfl, hj⟩
      rw [hleast.unique hj]

end Registry

open Registry in
/-- Of the registries that a history leaves, each one is the map of the registrations it has accepted: all
of valid identifiers, and none else. A rejected one changes no registry, and a clone and its original go
their own ways. Settings give a registry of just their keys, unless one of them is invalid. -/
theorem registry_is_map_of_history (env : Environment) :
    (∀ h, Begins env h → ∀ calls, ∀ g ∈ Call.run [h] calls, g.IsMap) ∧
    (∀ (h : Held) a, isIdentifier a.identifier → (h.register a).accepted = h.accepted ++ [a]) ∧
    (∀ hs place a, ¬ isIdentifier a.identifier →
      (∀ r : Registry, r.register a.identifier a.transpiler = .error (.invalidIdentifier a.identifier)) ∧
        (Call.register place a).apply hs = hs) ∧
    (∀ hs place calls, place < hs.length →
      ((∀ c ∈ calls, ¬ c.Changes hs.length) → (Call.run hs (.clone place :: calls))[hs.length]? = hs[place]?) ∧
        ((∀ c ∈ calls, ¬ c.Changes place) → (Call.run hs (.clone place :: calls))[place]? = hs[place]?)) ∧
    ∀ s, ((∃ r, ofSettings env s = .ok r) ↔ ∀ i ∈ s.dsl.keys, isIdentifier i) ∧
      (∀ r, ofSettings env s = .ok r → r.identifiers = s.dsl.keys) ∧
      ∀ e, ofSettings env s = .error e ↔ ∃ i, e = .invalidIdentifier i ∧ IsLeastInvalid s i := by
  refine ⟨?history, ?accepted, ?rejected, ?cloned, ?settings⟩
  case history =>
    intro h hb calls g hg
    have hbegin : ∀ g ∈ [h], g.Follows := fun g hg => List.mem_singleton.1 hg ▸ hb.follows
    exact (Call.forall_mem_run (fun g a hg => hg.register a) hbegin g hg).isMap
  case accepted =>
    intro h a ha
    rw [Held.register, register_of_isIdentifier ha]
  case rejected =>
    intro hs place a ha
    have hkeeps : (fun h : Held => h.register a) = id := funext fun h => Held.register_of_not_isIdentifier ha
    refine ⟨fun r => register_of_not_isIdentifier ha, ?_⟩
    rw [Call.apply, hkeeps, List.modify_id]
  case cloned =>
    intro hs place calls hplace
    have hgrown : hs.length < ((Call.clone place).apply hs).length := by simp [Call.apply, hplace]
    constructor
    · intro hcalls
      exact (Call.getElem?_run hgrown hcalls).trans (Call.getElem?_clone hplace)
    · intro hcalls
      exact (Call.getElem?_run (hplace.trans hgrown) hcalls).trans (Call.getElem?_apply hplace id)
  case settings =>
    intro s
    refine ⟨ofSettings_eq_ok_iff env s, ?_, ?_⟩
    · intro r hr
      exact identifiers_of_ofSettings hr
    · intro e
      exact ofSettings_eq_error_iff

/-- Nothing is known around the program, and no other program is found. -/
def Environment.bare (vars : Variables) : Environment where
  vars
  accountHome := none
  launch _ _ _ _ := throw (.spawn .noEntry)
  surroundings _ := .willing "t"
  position _ := (0, 0)

open Registry in
theorem history_of_md :
    ∃ original clone, Call.run [⟨.empty, []⟩] [.register 0 ⟨"md", .ofTemplate "[{code}]" .none⟩,
        .register 0 ⟨"my-dsl", .ofTemplate "" .none⟩, .clone 0, .register 0 ⟨"md", .ofTemplate "" .none⟩] =
        [original, clone] ∧
      original.registry.resolve "md" = .ok (.ofTemplate "" .none) ∧
        clone.registry.resolve "md" = .ok (.ofTemplate "[{code}]" .none) := by
  obtain ⟨hmap, -⟩ := registry_is_map_of_history (.bare .empty)
  have hhistory := hmap _ .empty [.register 0 ⟨"md", .ofTemplate "[{code}]" .none⟩,
    .register 0 ⟨"my-dsl", .ofTemplate "" .none⟩, .clone 0, .register 0 ⟨"md", .ofTemplate "" .none⟩]
  refine ⟨_, _, rfl, ?_, ?_⟩
  · apply ((hhistory _ (.head _)).resolve_ok _ _).2
    exact ⟨[⟨"md", .ofTemplate "[{code}]" .none⟩], [], rfl, by simp⟩
  · apply ((hhistory _ (.tail _ (.head _))).resolve_ok _ _).2
    exact ⟨[], [], rfl, by simp⟩

end Inlay
