import Inlay.Proofs.Reader
import Inlay.Settings.Parse

namespace Inlay

namespace Json

theorem Quoted.closed_of_bytesOf {ending : Ending} {us : List Unit16} {bs : Bytes} (h : bytesOf ending us = .ok bs) :
    ending = .closed := by
  fun_induction bytesOf ending us generalizing bs with
  | case1 hnone => cases ending <;> first | rfl | cases hnone
  | case3 _ _ ih | case5 _ _ _ _ _ _ ih | case9 _ _ _ _ ih =>
      obtain ⟨_, hrest, -⟩ := map_eq_ok.1 h
      exact ih hrest
  | _ => cases h

theorem Quoted.closed_of_text {q : Quoted} {s : String} (h : q.text = .ok s) : q.ending = .closed := by
  rw [text] at h
  split at h
  · cases h
  · next hbytes => exact closed_of_bytesOf hbytes

mutual

theorem Node.skip_of_value {n : Node} {depth : Nat} {v : Value} (h : n.value depth = .ok v) : n.skip = .ok () := by
  cases n with
  | null | bool | number => rfl
  | string q =>
      obtain ⟨s, hs, -⟩ := map_eq_ok.1 h
      exact skip_string_iff.2 (Quoted.closed_of_text hs)
  | array is =>
      rw [Node.value] at h
      split at h
      · cases h
      · obtain ⟨vs, hvs, -⟩ := map_eq_ok.1 h
        exact Items.skip_of_values hvs
  | object ms =>
      rw [Node.value] at h
      split at h
      · cases h
      · obtain ⟨vs, hvs, -⟩ := map_eq_ok.1 h
        exact Members.skip_of_values hvs
  | broken b => cases h

theorem Items.skip_of_values {is : Items} {depth : Nat} {vs : List Value} (h : is.values depth = .ok vs) :
    is.skip = .ok () := by
  cases is with
  | closed => rfl
  | broken b => cases h
  | cons head tail =>
      obtain ⟨v, hv, h⟩ := bind_eq_ok.1 h
      obtain ⟨vs, hvs, -⟩ := bind_eq_ok.1 h
      exact bind_eq_ok.2 ⟨(), Node.skip_of_value hv, Items.skip_of_values hvs⟩

theorem Members.skip_of_values {ms : Members} {depth : Nat} {vs : List (String × Value)}
    (h : ms.values depth = .ok vs) : ms.skip = .ok () := by
  cases ms with
  | closed => rfl
  | broken b => cases h
  | cons key value tail =>
      obtain ⟨k, hk, h⟩ := bind_eq_ok.1 h
      obtain ⟨v, hv, h⟩ := bind_eq_ok.1 h
      obtain ⟨vs, hvs, -⟩ := bind_eq_ok.1 h
      exact skip_cons_iff.2 ⟨Quoted.closed_of_text hk, Node.skip_of_value hv, Members.skip_of_values hvs⟩

end

end Json

namespace Settings

open Json

@[simp] theorem ofJson_eq_ok {α : Type} {x : Except Json.Fault α} {a : α} : ofJson x = .ok a ↔ x = .ok a := by
  cases x <;> simp [ofJson]

theorem mismatch_ne_ok {α : Type} {expected : String} {n : Node} {a : α} : mismatch expected n ≠ .ok a := by
  intro h
  obtain ⟨found, -, h⟩ := bind_eq_ok.1 h
  cases h

theorem skip_of_textAt {expected : String} {n : Node} {s : String} (h : textAt expected n = .ok s) :
    n.skip = .ok () := by
  cases n with
  | string q => exact skip_string_iff.2 (Quoted.closed_of_text (ofJson_eq_ok.1 h))
  | null | bool | number | array | object | broken => exact absurd h mismatch_ne_ok

theorem skip_of_kindAt {n : Node} {kind : DescriptorKind} (h : kindAt n = .ok kind) : n.skip = .ok () := by
  obtain ⟨name, hname, -⟩ := bind_eq_ok.1 h
  exact skip_of_textAt hname

theorem skip_of_tagged {depth : Nat} {kind : Option DescriptorKind} {ms : Members}
    {r : DescriptorKind × List (String × Value)} (h : tagged depth kind ms = .ok r) : ms.skip = .ok () := by
  cases ms with
  | closed => rfl
  | broken b => cases h
  | cons key value tail =>
      obtain ⟨name, hname, h⟩ := bind_eq_ok.1 h
      have hkey := Quoted.closed_of_text (ofJson_eq_ok.1 hname)
      split at h
      · cases kind with
        | some kind => cases h
        | none =>
            obtain ⟨kind, hkind, h⟩ := bind_eq_ok.1 h
            exact skip_cons_iff.2 ⟨hkey, skip_of_kindAt hkind, skip_of_tagged h⟩
      · obtain ⟨v, hv, h⟩ := bind_eq_ok.1 h
        obtain ⟨r', htail, -⟩ := bind_eq_ok.1 h
        exact skip_cons_iff.2 ⟨hkey, Node.skip_of_value (ofJson_eq_ok.1 hv), skip_of_tagged htail⟩

theorem skip_of_descriptorAt {depth : Nat} {n : Node} {d : Descriptor} (h : descriptorAt depth n = .ok d) :
    n.skip = .ok () := by
  cases n with
  | object ms =>
      obtain ⟨r, hr, -⟩ := bind_eq_ok.1 h
      exact skip_of_tagged hr
  | array is =>
      cases is with
      | closed => rfl
      | broken b => cases h
      | cons head tail =>
          obtain ⟨kind, hkind, h⟩ := bind_eq_ok.1 h
          obtain ⟨vs, hvs, -⟩ := bind_eq_ok.1 h
          exact bind_eq_ok.2 ⟨(), skip_of_kindAt hkind, Items.skip_of_values (ofJson_eq_ok.1 hvs)⟩
  | null | bool | number | string | broken => exact absurd h mismatch_ne_ok

theorem skip_of_entriesOf {α : Type} {read : Node → Read α} (hread : ∀ n a, read n = .ok a → n.skip = .ok ())
    {ms : Members} {es : List (String × α)} (h : entriesOf read ms = .ok es) : ms.skip = .ok () := by
  cases ms with
  | closed => rfl
  | broken b => cases h
  | cons key value tail =>
      obtain ⟨name, hname, h⟩ := bind_eq_ok.1 h
      obtain ⟨a, ha, h⟩ := bind_eq_ok.1 h
      obtain ⟨rest, hrest, -⟩ := bind_eq_ok.1 h
      exact skip_cons_iff.2
        ⟨Quoted.closed_of_text (ofJson_eq_ok.1 hname), hread value a ha, skip_of_entriesOf hread hrest⟩

theorem skip_of_tableAt {α : Type} {read : Node → Read α} (hread : ∀ n a, read n = .ok a → n.skip = .ok ())
    {n : Node} {t : Table String α} (h : tableAt read n = .ok t) : n.skip = .ok () := by
  cases n with
  | object ms =>
      obtain ⟨es, hes, -⟩ := bind_eq_ok.1 h
      exact skip_of_entriesOf hread hes
  | null | bool | number | string | array | broken => exact absurd h mismatch_ne_ok

theorem skip_of_pathsOf {is : Items} {paths : List String} (h : pathsOf is = .ok paths) : is.skip = .ok () := by
  cases is with
  | closed => rfl
  | broken b => cases h
  | cons head tail =>
      obtain ⟨path, hpath, h⟩ := bind_eq_ok.1 h
      obtain ⟨rest, hrest, -⟩ := bind_eq_ok.1 h
      exact bind_eq_ok.2 ⟨(), skip_of_textAt hpath, skip_of_pathsOf hrest⟩

theorem skip_of_read {d d' : Draft} {n : Node} {f : Field} (h : d.read n f = .ok d') : n.skip = .ok () := by
  cases f with
  | dsl =>
      obtain ⟨t, ht, -⟩ := bind_eq_ok.1 h
      exact skip_of_tableAt (fun _ _ => skip_of_descriptorAt) ht
  | packages =>
      obtain ⟨t, ht, -⟩ := bind_eq_ok.1 h
      exact skip_of_tableAt (fun _ _ => skip_of_textAt) ht
  | packageRoots =>
      obtain ⟨paths, hpaths, -⟩ := bind_eq_ok.1 h
      cases n with
      | array is => exact skip_of_pathsOf hpaths
      | null | bool | number | string | object | broken => exact absurd hpaths mismatch_ne_ok
  | fusionPath | fileExtension =>
      obtain ⟨s, hs, -⟩ := bind_eq_ok.1 h
      exact skip_of_textAt hs

theorem skip_of_draftOfMembers {d d' : Draft} {ms : Members} (h : draftOfMembers d ms = .ok d') :
    ms.skip = .ok () := by
  cases ms with
  | closed => rfl
  | broken b => cases h
  | cons key value tail =>
      obtain ⟨name, hname, h⟩ := bind_eq_ok.1 h
      have hkey := Quoted.closed_of_text (ofJson_eq_ok.1 hname)
      split at h
      · obtain ⟨_, hvalue, h⟩ := bind_eq_ok.1 h
        exact skip_cons_iff.2 ⟨hkey, ofJson_eq_ok.1 hvalue, skip_of_draftOfMembers h⟩
      · split at h
        · cases h
        · obtain ⟨d₁, hd₁, h⟩ := bind_eq_ok.1 h
          exact skip_cons_iff.2 ⟨hkey, skip_of_read hd₁, skip_of_draftOfMembers h⟩

theorem skip_of_draftOfItems {d d' : Draft} {fs : List Field} {is : Items} (h : draftOfItems d fs is = .ok d') :
    is.skip = .ok () := by
  induction fs generalizing d is with
  | nil =>
      obtain ⟨_, hclosed, -⟩ := bind_eq_ok.1 h
      unfold checkClosed at hclosed
      split at hclosed <;> first | rfl | cases hclosed
  | cons f fs ih =>
      cases is with
      | closed => rfl
      | broken b => cases h
      | cons head tail =>
          obtain ⟨d₁, hd₁, h⟩ := bind_eq_ok.1 h
          exact bind_eq_ok.2 ⟨(), skip_of_read hd₁, ih h⟩

theorem skip_of_settingsAt {n : Node} {s : Settings} (h : settingsAt n = .ok s) : n.skip = .ok () := by
  cases n with
  | object ms =>
      obtain ⟨d, hd, -⟩ := bind_eq_ok.1 h
      exact skip_of_draftOfMembers hd
  | array is =>
      obtain ⟨d, hd, -⟩ := bind_eq_ok.1 h
      exact skip_of_draftOfItems hd
  | null | bool | number | string | broken => exact absurd h mismatch_ne_ok

theorem parse_eq_ok {text : Bytes} {s : Settings} :
    parse text = .ok s ↔ ∃ n, IsTextOf text n ∧ settingsAt n = .ok s := by
  constructor
  · intro h
    obtain ⟨s', hs, h⟩ := bind_eq_ok.1 h
    split at h
    · cases h
    · next htrailing =>
      cases h
      refine ⟨(Json.parse text).root, isTextOf_of_parse ?_ (skip_of_settingsAt hs), hs⟩
      exact congrArg (Document.mk _) (Bool.eq_false_iff.2 htrailing)
  · rintro ⟨n, hn, hs⟩
    rw [parse, hn.parse]
    exact bind_eq_ok.2 ⟨s, hs, rfl⟩

end Settings

end Inlay
