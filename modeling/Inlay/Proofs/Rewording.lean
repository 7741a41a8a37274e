import Inlay.Proofs.Description
import Inlay.Proofs.Printed
import Inlay.Settings.Load
import Mathlib.Data.List.Nodup
import Mathlib.Data.List.Perm.Basic
import Mathlib.Logic.Relation

namespace Inlay

open Json

/-! ### Tables -/

namespace Table

variable {κ α : Type} [Ord κ] [Std.TransOrd κ] [Std.LawfulEqOrd κ]

theorem insert_insert_of_ne (t : Table κ α) {j k : κ} (v w : α) (h : j ≠ k) :
    (t.insert j v).insert k w = (t.insert k w).insert j v := by
  refine eq_of_get? fun i => ?_
  by_cases hj : i = j
  · subst hj
    rw [get?_insert_of_ne _ _ h, get?_insert_self, get?_insert_self]
  · by_cases hk : i = k
    · subst hk
      rw [get?_insert_self, get?_insert_of_ne _ _ hj, get?_insert_self]
    · rw [get?_insert_of_ne _ _ hk, get?_insert_of_ne _ _ hj, get?_insert_of_ne _ _ hj, get?_insert_of_ne _ _ hk]

theorem ofList_perm {es fs : List (κ × α)} (h : es.Perm fs) (hkeys : (es.map Prod.fst).Nodup) :
    ofList es = ofList fs := by
  refine h.foldl_eq' (fun e he f hf t => ?_) empty
  by_cases hef : e = f
  · rw [hef]
  · exact t.insert_insert_of_ne e.2 f.2 fun hkey => hef (List.inj_on_of_nodup_map hkeys he hf hkey)

end Table

namespace Settings

/-! ### Rewording -/

def memberDepth : Nat := descriptorDepth - 1

/-- The members of a descriptor in another order, or with one more that says nothing: its name is unknown there, or it
gives an optional field the default that was left unsaid. -/
inductive RewordsDescriptor : List (String × Node) → List (String × Node) → Prop
  | reorder {ms ms' : List (String × Node)} (h : ms.Perm ms') : RewordsDescriptor ms ms'
  | unknown {before after : List (String × Node)} {kind : DescriptorKind} {name : String} {n : Node} {v : Value}
      (hkind : Says kindAt none (valuesIn tagName (before ++ after)) kind) (htag : name ≠ tagName)
      (hname : ∀ f ∈ kind.fields, name ≠ f.name) (hn : n.value memberDepth = .ok v) :
      RewordsDescriptor (before ++ after) (before ++ (name, n) :: after)
  | default {before after : List (String × Node)} {kind : DescriptorKind} {f : DescriptorField} {a : f.Content}
      {n : Node} (hkind : Says kindAt none (valuesIn tagName (before ++ after)) kind) (hf : f ∈ kind.fields)
      (hdefault : f.default? = some a) (habsent : valuesIn f.name (before ++ after) = [])
      (hn : readValue memberDepth f.read n = .ok a) :
      RewordsDescriptor (before ++ after) (before ++ (f.name, n) :: after)

/-- Of entries with the same key the last one counts, so that these keep their order. -/
inductive RewordsDsl : List (String × Node) → List (String × Node) → Prop
  | reorder {es es' : List (String × Node)} (hkeys : (es.map Prod.fst).Nodup) (h : es.Perm es') : RewordsDsl es es'
  | descriptor {before after : List (String × Node)} {identifier : String} {n n' : Node} {ms ms' : List (String × Node)}
      (hn : n.IsObjectOf ms) (hn' : n'.IsObjectOf ms') (h : RewordsDescriptor ms ms') :
      RewordsDsl (before ++ (identifier, n) :: after) (before ++ (identifier, n') :: after)

/-- The members of settings, likewise; or with other words for the descriptors or for the packages. -/
inductive Rewords : List (String × Node) → List (String × Node) → Prop
  | reorder {ms ms' : List (String × Node)} (h : ms.Perm ms') : Rewords ms ms'
  | unknown {before after : List (String × Node)} {name : String} {n : Node} (hname : Field.ofName? name = none)
      (hn : n.skip = .ok ()) : Rewords (before ++ after) (before ++ (name, n) :: after)
  | default {before after : List (String × Node)} {n : Node} (f : Field)
      (habsent : valuesIn f.name (before ++ after) = []) (hn : f.readAt n = .ok (({} : Settings).get f)) :
      Rewords (before ++ after) (before ++ (f.name, n) :: after)
  | dsl {before after es es' : List (String × Node)} {n n' : Node} (hn : n.IsObjectOf es) (hn' : n'.IsObjectOf es')
      (h : RewordsDsl es es') :
      Rewords (before ++ (Field.dsl.name, n) :: after) (before ++ (Field.dsl.name, n') :: after)
  | packages {before after es es' : List (String × Node)} {n n' : Node} (hn : n.IsObjectOf es)
      (hn' : n'.IsObjectOf es') (hkeys : (es.map Prod.fst).Nodup) (h : es.Perm es') :
      Rewords (before ++ (Field.packages.name, n) :: after) (before ++ (Field.packages.name, n') :: after)

/-! ### What is said stays the same -/

variable {ν α : Type} {name other : String} {v v' : ν} {before after : List (String × ν)} {read : ν → Read α}
  {default? : Option α} {a : α}

/-- A member of another name, or of an absent field with its default, changes nothing for the field. -/
theorem says_spare (h : other = name → valuesIn name (before ++ after) = [] ∧ ∃ b, default? = some b ∧ read v = .ok b) :
    Says read default? (valuesIn name (before ++ (other, v) :: after)) a ↔
      Says read default? (valuesIn name (before ++ after)) a := by
  by_cases hname : other = name
  · obtain ⟨habsent, b, rfl, hv⟩ := h hname
    subst hname
    rw [habsent, says_nil]
    rw [valuesIn_append, List.append_eq_nil_iff] at habsent
    rw [valuesIn_append, valuesIn_cons_self, habsent.1, habsent.2, List.nil_append, says_singleton, hv]
    simp
  · rw [valuesIn_append, valuesIn_append, valuesIn_cons_of_ne hname]

theorem Says.replace {vs ws : List ν} (h : Says read default? (vs ++ v :: ws) a)
    (hread : ∀ b, read v = .ok b → read v' = .ok b) : Says read default? (vs ++ v' :: ws) a := by
  have hlength := h.length_le
  rw [List.length_append, List.length_cons] at hlength
  obtain rfl := List.eq_nil_of_length_eq_zero (show vs.length = 0 by omega)
  obtain rfl := List.eq_nil_of_length_eq_zero (show ws.length = 0 by omega)
  exact says_singleton.2 (hread a (says_singleton.1 h))

theorem says_replace {vs ws : List ν} (hread : ∀ b, read v = .ok b ↔ read v' = .ok b) :
    Says read default? (vs ++ v :: ws) a ↔ Says read default? (vs ++ v' :: ws) a :=
  ⟨fun h => h.replace fun b => (hread b).1, fun h => h.replace fun b => (hread b).2⟩

theorem says_perm {ms ms' : List (String × ν)} (h : ms.Perm ms') :
    Says read default? (valuesIn name ms) a ↔ Says read default? (valuesIn name ms') a :=
  ⟨fun hfield => hfield.perm (perm_valuesIn name h), fun hfield => hfield.perm (perm_valuesIn name h).symm⟩

/-! ### Descriptors -/

section Descriptor

variable {depth : Nat} {d : Descriptor} {ms ms' before after : List (String × Node)} {n : Node} {kind : DescriptorKind}

theorem describes_iff : DescribesDescriptor depth ms d ↔ (∃ kind, Says kindAt none (valuesIn tagName ms) kind ∧
    DescribesFields depth ms kind d) ∧ ∀ m ∈ ms, m.1 ≠ tagName → ∃ v, m.2.value depth = .ok v :=
  ⟨fun h => ⟨h.fields, h.values⟩, fun h => ⟨h.1, h.2⟩⟩

theorem DescribesDescriptor.perm (hd : DescribesDescriptor depth ms d) (h : ms.Perm ms') :
    DescribesDescriptor depth ms' d := by
  obtain ⟨⟨kind, hkind, hfields⟩, hvalues⟩ := hd
  refine ⟨⟨kind, (says_perm h).1 hkind, fun f hf => ?_⟩, fun m hm => hvalues m (h.mem_iff.2 hm)⟩
  obtain ⟨a, ha, hfield⟩ := hfields f hf
  exact ⟨a, ha, (says_perm h).1 hfield⟩

theorem describes_spare {v : Value} (hkind : Says kindAt none (valuesIn tagName (before ++ after)) kind)
    (htag : name ≠ tagName) (hn : n.value depth = .ok v)
    (hfields : ∀ f ∈ kind.fields, name = f.name → valuesIn f.name (before ++ after) = [] ∧
      ∃ b, f.default? = some b ∧ readValue depth f.read n = .ok b) :
    DescribesDescriptor depth (before ++ after) d ↔ DescribesDescriptor depth (before ++ (name, n) :: after) d := by
  have htagged (kind : DescriptorKind) : Says kindAt none (valuesIn tagName (before ++ (name, n) :: after)) kind ↔
      Says kindAt none (valuesIn tagName (before ++ after)) kind := says_spare fun h => absurd h htag
  have hfield : DescribesFields depth (before ++ (name, n) :: after) kind d ↔
      DescribesFields depth (before ++ after) kind d :=
    forall₂_congr fun f hf => exists_congr fun a => and_congr_right fun _ => says_spare (hfields f hf)
  have hvalues : (∀ m ∈ before ++ (name, n) :: after, m.1 ≠ tagName → ∃ v, m.2.value depth = .ok v) ↔
      ∀ m ∈ before ++ after, m.1 ≠ tagName → ∃ v, m.2.value depth = .ok v := by
    simp only [List.forall_mem_append, List.forall_mem_cons]
    exact and_congr_right fun _ => and_iff_right fun _ => ⟨v, hn⟩
  rw [describes_iff, describes_iff, hvalues]
  refine and_congr_left fun _ => exists_congr fun kind' => ?_
  rw [htagged]
  refine and_congr_right fun hkind' => ?_
  obtain rfl := hkind.unique hkind'
  exact hfield.symm

theorem RewordsDescriptor.describes_iff (h : RewordsDescriptor ms ms') :
    DescribesDescriptor memberDepth ms d ↔ DescribesDescriptor memberDepth ms' d := by
  cases h with
  | reorder h => exact ⟨fun hd => hd.perm h, fun hd => hd.perm h.symm⟩
  | unknown hkind htag hname hn => exact describes_spare hkind htag hn fun f hf heq => absurd heq (hname f hf)
  | @default _ _ _ f a n hkind hf hdefault habsent hn =>
      obtain ⟨v, hv, -⟩ := bind_eq_ok.1 hn
      refine describes_spare hkind f.name_ne_tagName (ofJson_eq_ok.1 hv) fun g hg heq => ?_
      obtain rfl := DescriptorField.name_injective heq
      exact ⟨habsent, a, hdefault, hn⟩

end Descriptor

/-! ### Entries -/

section Entries

variable {α : Type} {read : Node → Read α} {es es' before after : List (String × Node)} {n n' : Node} {t : Table String α}

def IsEntry (read : Node → Read α) (m : String × Node) (e : String × α) : Prop := m.1 = e.1 ∧ read m.2 = .ok e.2

theorem entriesOf_eq_ok {members : Members} {ms : List (String × Node)} (h : members.Named ms)
    {entries : List (String × α)} : entriesOf read members = .ok entries ↔ ms.Forall₂ (IsEntry read) entries := by
  induction h generalizing entries with
  | closed => simp [entriesOf, List.forall₂_nil_left_iff, eq_comm]
  | @cons key name value tail ms hkey _ ih =>
      unfold entriesOf
      rw [hkey, List.forall₂_cons_left_iff]
      simp only [bind_eq_ok, ofJson_eq_ok, ih]
      constructor
      · rintro ⟨name', hname, a, ha, rest, hrest, heq⟩
        cases hname
        cases heq
        exact ⟨(name, a), rest, ⟨rfl, ha⟩, hrest, rfl⟩
      · rintro ⟨e, rest, ⟨rfl, ha⟩, hrest, rfl⟩
        exact ⟨_, rfl, e.2, ha, rest, hrest, rfl⟩

theorem tableAt_eq_ok (h : n.IsObjectOf es) :
    tableAt read n = .ok t ↔ ∃ entries, es.Forall₂ (IsEntry read) entries ∧ .ofList entries = t := by
  obtain ⟨members, rfl, hms⟩ := h
  rw [tableAt]
  simp [entriesOf_eq_ok hms]

theorem keys_of_entries {entries : List (String × α)} (h : es.Forall₂ (IsEntry read) entries) :
    entries.map Prod.fst = es.map Prod.fst := by
  induction h with
  | nil => rfl
  | cons he _ ih => rw [List.map_cons, List.map_cons, ih, he.1]

theorem tableAt_of_perm (hn : n.IsObjectOf es) (hn' : n'.IsObjectOf es') (hkeys : (es.map Prod.fst).Nodup)
    (hperm : es.Perm es') (h : tableAt read n = .ok t) : tableAt read n' = .ok t := by
  obtain ⟨entries, hentries, rfl⟩ := (tableAt_eq_ok hn).1 h
  obtain ⟨entries', hentries', hperm'⟩ := List.perm_comp_forall₂ hperm.symm hentries
  refine (tableAt_eq_ok hn').2 ⟨entries', hentries', (Table.ofList_perm hperm'.symm ?_).symm⟩
  rwa [keys_of_entries hentries]

theorem tableAt_perm (hn : n.IsObjectOf es) (hn' : n'.IsObjectOf es') (hkeys : (es.map Prod.fst).Nodup)
    (hperm : es.Perm es') : tableAt read n = .ok t ↔ tableAt read n' = .ok t :=
  ⟨tableAt_of_perm hn hn' hkeys hperm,
    tableAt_of_perm hn' hn ((hperm.map Prod.fst).nodup_iff.1 hkeys) hperm.symm⟩

theorem forall₂_replace {name : String} {v v' : Node} {entries : List (String × α)}
    (hread : ∀ a, read v = .ok a → read v' = .ok a)
    (h : (before ++ (name, v) :: after).Forall₂ (IsEntry read) entries) :
    (before ++ (name, v') :: after).Forall₂ (IsEntry read) entries := by
  induction before generalizing entries with
  | nil =>
      obtain ⟨e, rest, ⟨hname, ha⟩, hrest, rfl⟩ := List.forall₂_cons_left_iff.1 h
      exact .cons ⟨hname, hread _ ha⟩ hrest
  | cons m before ih =>
      obtain ⟨e, rest, he, hrest, rfl⟩ := List.forall₂_cons_left_iff.1 h
      exact .cons he (ih hrest)

theorem tableAt_replace {name : String} {v v' : Node} (hn : n.IsObjectOf (before ++ (name, v) :: after))
    (hn' : n'.IsObjectOf (before ++ (name, v') :: after)) (hread : ∀ a, read v = .ok a ↔ read v' = .ok a) :
    tableAt read n = .ok t ↔ tableAt read n' = .ok t := by
  rw [tableAt_eq_ok hn, tableAt_eq_ok hn']
  exact exists_congr fun entries => and_congr_left fun _ =>
    ⟨forall₂_replace fun a => (hread a).1, forall₂_replace fun a => (hread a).2⟩

theorem RewordsDsl.tableAt_iff {t : Table String Descriptor} (hn : n.IsObjectOf es) (hn' : n'.IsObjectOf es')
    (h : RewordsDsl es es') :
    tableAt (descriptorAt descriptorDepth) n = .ok t ↔ tableAt (descriptorAt descriptorDepth) n' = .ok t := by
  cases h with
  | reorder hkeys hperm => exact tableAt_perm hn hn' hkeys hperm
  | descriptor hv hv' h =>
      refine tableAt_replace hn hn' fun d => ?_
      rw [descriptorAt_eq_ok hv, descriptorAt_eq_ok hv']
      exact h.describes_iff

end Entries

/-! ### Settings -/

section Settings

variable {ms ms' before after : List (String × Node)} {n n' : Node} {s : Settings}

theorem DescribesSettings.perm (hs : DescribesSettings ms s) (h : ms.Perm ms') : DescribesSettings ms' s :=
  ⟨fun f => (says_perm h).1 (hs.fields f), fun m hm => hs.others m (h.mem_iff.2 hm)⟩

theorem describesSettings_spare {name : String} (hn : Field.ofName? name = none → n.skip = .ok ())
    (hfields : ∀ f : Field, name = f.name → valuesIn f.name (before ++ after) = [] ∧
      f.readAt n = .ok (({} : Settings).get f)) :
    DescribesSettings (before ++ after) s ↔ DescribesSettings (before ++ (name, n) :: after) s := by
  have hfield (f : Field) : Says f.readAt (some (({} : Settings).get f)) (valuesIn f.name (before ++ (name, n) :: after))
      (s.get f) ↔ Says f.readAt (some (({} : Settings).get f)) (valuesIn f.name (before ++ after)) (s.get f) := by
    refine says_spare fun heq => ?_
    obtain ⟨habsent, hread⟩ := hfields f heq
    exact ⟨habsent, _, rfl, hread⟩
  constructor
  · intro h
    refine ⟨fun f => (hfield f).2 (h.fields f), ?_⟩
    have hothers := h.others
    rw [List.forall_mem_append] at hothers ⊢
    exact ⟨hothers.1, List.forall_mem_cons.2 ⟨hn, hothers.2⟩⟩
  · intro h
    refine ⟨fun f => (hfield f).1 (h.fields f), ?_⟩
    have hothers := h.others
    rw [List.forall_mem_append] at hothers ⊢
    exact ⟨hothers.1, (List.forall_mem_cons.1 hothers.2).2⟩

theorem DescribesSettings.replace {f : Field} (hs : DescribesSettings (before ++ (f.name, n) :: after) s)
    (hread : ∀ a, f.readAt n = .ok a ↔ f.readAt n' = .ok a) :
    DescribesSettings (before ++ (f.name, n') :: after) s := by
  constructor
  · intro g
    have hfield := hs.fields g
    rw [valuesIn_append] at hfield ⊢
    by_cases hg : f.name = g.name
    · obtain rfl := Field.name_injective hg
      rw [valuesIn_cons_self] at hfield ⊢
      exact (says_replace hread).1 hfield
    · rw [valuesIn_cons_of_ne hg] at hfield ⊢
      exact hfield
  · have hothers := hs.others
    rw [List.forall_mem_append] at hothers ⊢
    refine ⟨hothers.1, List.forall_mem_cons.2 ⟨fun hname => ?_, (List.forall_mem_cons.1 hothers.2).2⟩⟩
    exact absurd rfl (Field.ne_of_ofName? hname f)

theorem describesSettings_replace {f : Field} (hread : ∀ a, f.readAt n = .ok a ↔ f.readAt n' = .ok a) :
    DescribesSettings (before ++ (f.name, n) :: after) s ↔ DescribesSettings (before ++ (f.name, n') :: after) s :=
  ⟨fun hs => hs.replace hread, fun hs => hs.replace fun a => (hread a).symm⟩

theorem Rewords.describes_iff (h : Rewords ms ms') : DescribesSettings ms s ↔ DescribesSettings ms' s := by
  cases h with
  | reorder h => exact ⟨fun hs => hs.perm h, fun hs => hs.perm h.symm⟩
  | unknown hname hn =>
      exact describesSettings_spare (fun _ => hn) fun f heq => absurd heq.symm (Field.ne_of_ofName? hname f)
  | default f habsent hn =>
      refine describesSettings_spare (fun hname => absurd rfl (Field.ne_of_ofName? hname f)) fun g heq => ?_
      obtain rfl := Field.name_injective heq
      exact ⟨habsent, hn⟩
  | dsl hn hn' h => exact describesSettings_replace fun t => h.tableAt_iff hn hn'
  | packages hn hn' hkeys h => exact describesSettings_replace fun t => tableAt_perm hn hn' hkeys h

theorem describes_of_eqvGen (h : Relation.EqvGen Rewords ms ms') : DescribesSettings ms s ↔ DescribesSettings ms' s := by
  induction h with
  | rel _ _ h => exact h.describes_iff
  | refl _ => exact Iff.rfl
  | symm _ _ _ ih => exact ih.symm
  | trans _ _ _ _ _ ih₁ ih₂ => exact ih₁.trans ih₂

end Settings

end Settings

def IsObjectText (text : Bytes) (ms : List (String × Node)) : Prop := ∃ n, IsTextOf text n ∧ n.IsObjectOf ms

theorem ofText_eq_ok {position : Position} {text : Bytes} {s : Settings} :
    Settings.ofText position text = .ok s ↔ ∃ n, IsTextOf text n ∧ Settings.settingsAt n = .ok s := by
  rw [← Settings.parse_eq_ok, Settings.ofText]
  cases Settings.parse text with
  | ok s' => simp
  | error fault => simp

/-- A text that is accepted as settings is a text of one node, and if this is an object, then every text of its members
in other words is accepted as the same settings. -/
theorem settings_reworded {position : Position} {text : Bytes} {s : Settings}
    (h : Settings.ofText position text = .ok s) :
    ∃ n, (∀ n', IsTextOf text n' ↔ n' = n) ∧ ∀ members, n = .object members → ∃ ms, members.Named ms ∧
      ∀ ms' text', Relation.EqvGen Settings.Rewords ms ms' → IsObjectText text' ms' →
        Settings.ofText position text' = .ok s := by
  obtain ⟨n, hn, hs⟩ := ofText_eq_ok.1 h
  refine ⟨n, fun n' => ⟨fun hn' => hn'.unique hn, fun heq => heq ▸ hn⟩, ?_⟩
  rintro members rfl
  obtain ⟨d, hd, -⟩ := bind_eq_ok.1 hs
  obtain ⟨ms, hms⟩ := Settings.exists_named_of_draftOfMembers hd
  refine ⟨ms, hms, fun ms' text' hreword htext' => ?_⟩
  obtain ⟨n', hn', hms'⟩ := htext'
  have hfield := (Settings.settingsAt_eq_ok ⟨members, rfl, hms⟩).1 hs
  exact ofText_eq_ok.2 ⟨n', hn', (Settings.settingsAt_eq_ok hms').2 ((Settings.describes_of_eqvGen hreword).1 hfield)⟩

def nodesOf (ms : List (String × Value)) : List (String × Node) := ms.map fun m => (m.1, m.2.toNode)

theorem named_toMembers (ms : List (String × Value)) : (toMembers ms).Named (nodesOf ms) := by
  induction ms with
  | nil => exact .closed
  | cons m ms ih => exact .cons (text_ofString m.1) ih

theorem isObjectOf_toNode (ms : List (String × Value)) : (Value.object ms).toNode.IsObjectOf (nodesOf ms) :=
  ⟨toMembers ms, rfl, named_toMembers ms⟩

namespace Settings

def mdFields : List (String × Value) := [(tagName, .string "template"), ("template", .string "[]")]

def mdMembers : List (String × Value) := [("dsl", .object [("md", .object mdFields)])]

def mdReworded : List (String × Value) :=
  [("comment", .array [.null]), ("dsl", .object [("md", .object mdFields.reverse)])]

theorem eqvGen_md : Relation.EqvGen Rewords (nodesOf mdMembers) (nodesOf mdReworded) := by
  have hdescriptor : RewordsDescriptor (nodesOf mdFields) (nodesOf mdFields.reverse) :=
    .reorder ((List.reverse_perm _).symm.map _)
  have hdsl : RewordsDsl (nodesOf [("md", .object mdFields)]) (nodesOf [("md", .object mdFields.reverse)]) :=
    @RewordsDsl.descriptor [] [] _ _ _ _ _ (isObjectOf_toNode _) (isObjectOf_toNode _) hdescriptor
  have htag : Rewords (nodesOf mdMembers) (nodesOf mdReworded.tail) :=
    @Rewords.dsl [] [] _ _ _ _ (isObjectOf_toNode _) (isObjectOf_toNode _) hdsl
  have hcomment : Rewords (nodesOf mdReworded.tail) (nodesOf mdReworded) :=
    @Rewords.unknown [] (nodesOf mdReworded.tail) "comment" (Value.array [.null]).toNode (by decide) rfl
  exact .trans _ _ _ (.rel _ _ htag) (.rel _ _ hcomment)

end Settings

theorem md_reworded :
    let text := "\x7b\"dsl\":\x7b\"md\":\x7b\"type\":\"template\",\"template\":\"[]\"\x7d\x7d\x7d"
    let text' := "\x7b \"comment\" : [null],\n" ++
      " \"dsl\": \x7b\"md\": \x7b\"template\":\"[]\", \"type\":\"template\"\x7d\x7d\x7d"
    let s : Settings := { dsl := .ofList [("md", .template "[]" .none)] }
    ∀ position, Settings.ofText position (Text.encode text) = .ok s ∧
      Settings.ofText position (Text.encode text') = .ok s := by
  intro text text' s position
  have htext : IsTextOf (Text.encode text) (Value.object Settings.mdMembers).toNode := isTextOf_of_parse rfl rfl
  have htext' : IsTextOf (Text.encode text') (Value.object Settings.mdReworded).toNode := isTextOf_of_parse rfl rfl
  have h : Settings.ofText position (Text.encode text) = .ok s := rfl
  obtain ⟨n, hn, hobject⟩ := settings_reworded h
  obtain rfl := (hn _).1 htext
  obtain ⟨ms, hms, hreworded⟩ := hobject _ rfl
  obtain rfl := hms.unique (named_toMembers _)
  exact ⟨h, hreworded _ _ Settings.eqvGen_md ⟨_, htext', isObjectOf_toNode _⟩⟩

end Inlay
