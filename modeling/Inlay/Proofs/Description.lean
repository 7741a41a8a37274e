import Inlay.Proofs.Accepted
import Inlay.Proofs.Fields
import Mathlib.Data.List.Forall2

namespace Inlay

open Json

/-! ### The fields of a descriptor -/

inductive DescriptorField
  | template
  | escape
  | program
  | args
  | trimTrailingNewline
  deriving DecidableEq

namespace DescriptorField

def name : DescriptorField → String
  | .template => "template"
  | .escape => "escape"
  | .program => "program"
  | .args => "args"
  | .trimTrailingNewline => "trim_trailing_newline"

def Content : DescriptorField → Type
  | .template | .program => String
  | .escape => Escape
  | .args => List String
  | .trimTrailingNewline => Bool

def default? : (f : DescriptorField) → Option f.Content
  | .template | .program => none
  | .escape => some Escape.none
  | .args => some ([] : List String)
  | .trimTrailingNewline => some true

def read : (f : DescriptorField) → Value → Settings.Read f.Content
  | .template | .program => Settings.stringOf
  | .escape => Settings.escapeOf
  | .args => Settings.stringsOf
  | .trimTrailingNewline => Settings.boolOf

theorem name_ne_tagName (f : DescriptorField) : f.name ≠ Settings.tagName := by cases f <;> decide

theorem name_injective : Function.Injective name := by
  intro f g h
  cases f <;> cases g <;> first | rfl | exact absurd h (by decide)

end DescriptorField

def DescriptorKind.fields : DescriptorKind → List DescriptorField
  | .template => [.template, .escape]
  | .command => [.program, .args, .trimTrailingNewline]

def Descriptor.get? : Descriptor → (f : DescriptorField) → Option f.Content
  | .template text _, .template => some text
  | .template _ escape, .escape => some escape
  | .command program _ _, .program => some program
  | .command _ args _, .args => some args
  | .command _ _ trim, .trimTrailingNewline => some trim
  | _, _ => none

namespace Settings

section Descriptor

variable {α : Type} {name : String} {known filled : Option α} {depth : Nat} {ms : List (String × Node)}
  {fs : List (String × Value)}

theorem fills_cons_once (field : String) {read : Value → Read α} {v : Value} {vs : List Value} :
    Fills read known (v :: vs) filled ↔ ∃ known', once field known read v = .ok known' ∧ Fills read known' vs filled := by
  rw [fills_cons]
  cases known with
  | none => simp [once]
  | some a => simp [once]

theorem templateFields_eq_ok {template : Option String} {escape : Option Escape} {d : Descriptor} :
    templateFields template escape fs = .ok d ↔
      ∃ text escape', Fills stringOf template (valuesIn "template" fs) (some text) ∧
        Fills escapeOf escape (valuesIn "escape" fs) escape' ∧ d = .template text (escape'.getD .none) := by
  induction fs generalizing template escape with
  | nil => cases template <;> simp [templateFields, required, fills_nil, bind, Except.bind, eq_comm]
  | cons f fs ih =>
      obtain ⟨name, v⟩ := f
      rw [templateFields]
      by_cases htemplate : name = "template"
      · subst htemplate
        simp only [if_true, bind_eq_ok, ih, valuesIn_cons_self, valuesIn_cons_of_ne (by decide : "template" ≠ "escape"),
          fills_cons_once "template"]
        grind
      · by_cases hescape : name = "escape"
        · subst hescape
          simp only [htemplate, if_false, if_true, bind_eq_ok, ih, valuesIn_cons_self, valuesIn_cons_of_ne htemplate,
            fills_cons_once "escape"]
          grind
        · simp only [htemplate, hescape, if_false, ih, valuesIn_cons_of_ne htemplate, valuesIn_cons_of_ne hescape]

theorem commandFields_eq_ok {program : Option String} {args : Option (List String)} {trim : Option Bool}
    {d : Descriptor} : commandFields program args trim fs = .ok d ↔
      ∃ program' args' trim', Fills stringOf program (valuesIn "program" fs) (some program') ∧
        Fills stringsOf args (valuesIn "args" fs) args' ∧ Fills boolOf trim (valuesIn "trim_trailing_newline" fs) trim' ∧
        d = .command program' (args'.getD []) (trim'.getD true) := by
  induction fs generalizing program args trim with
  | nil => cases program <;> simp [commandFields, required, fills_nil, bind, Except.bind, eq_comm]
  | cons f fs ih =>
      obtain ⟨name, v⟩ := f
      rw [commandFields]
      by_cases hprogram : name = "program"
      · subst hprogram
        simp only [if_true, bind_eq_ok, ih, valuesIn_cons_self, valuesIn_cons_of_ne (by decide : "program" ≠ "args"),
          valuesIn_cons_of_ne (by decide : "program" ≠ "trim_trailing_newline"), fills_cons_once "program"]
        grind
      · by_cases hargs : name = "args"
        · subst hargs
          simp only [hprogram, if_false, if_true, bind_eq_ok, ih, valuesIn_cons_self, valuesIn_cons_of_ne hprogram,
            valuesIn_cons_of_ne (by decide : "args" ≠ "trim_trailing_newline"), fills_cons_once "args"]
          grind
        · by_cases htrim : name = "trim_trailing_newline"
          · subst htrim
            simp only [hprogram, hargs, if_false, if_true, bind_eq_ok, ih, valuesIn_cons_self,
              valuesIn_cons_of_ne hprogram, valuesIn_cons_of_ne hargs, fills_cons_once "trim_trailing_newline"]
            grind
          · simp only [hprogram, hargs, htrim, if_false, ih, valuesIn_cons_of_ne hprogram, valuesIn_cons_of_ne hargs,
              valuesIn_cons_of_ne htrim]

def HasValue (depth : Nat) (m : String × Node) (f : String × Value) : Prop := f.1 = m.1 ∧ m.2.value depth = .ok f.2

theorem tagged_eq_ok {kind : Option DescriptorKind} {members : Members} (h : members.Named ms) {kind' : DescriptorKind} :
    tagged depth kind members = .ok (kind', fs) ↔ Fills kindAt kind (valuesIn tagName ms) (some kind') ∧
      (ms.filter (·.1 ≠ tagName)).Forall₂ (HasValue depth) fs := by
  induction h generalizing kind kind' fs with
  | closed =>
      cases kind <;> simp [tagged, required, fills_nil, bind, Except.bind, eq_comm, List.forall₂_nil_left_iff]
  | @cons key name value tail ms hkey _ ih =>
      unfold tagged
      rw [hkey]
      change (if name = tagName then _ else _) = _ ↔ _
      by_cases htag : name = tagName
      · subst htag
        rw [if_pos rfl, valuesIn_cons_self, List.filter_cons_of_neg (by simp), fills_cons]
        cases kind with
        | some kind => simp
        | none => simp only [bind_eq_ok, ih, true_and, ← exists_and_right, and_assoc]
      · rw [if_neg htag, valuesIn_cons_of_ne htag, List.filter_cons_of_pos (by simpa using htag)]
        simp only [bind_eq_ok, ofJson_eq_ok, ih, Prod.exists]
        constructor
        · rintro ⟨v, hv, kind'', fs', ⟨hkind, hfs⟩, heq⟩
          cases heq
          exact ⟨hkind, .cons ⟨rfl, hv⟩ hfs⟩
        · rintro ⟨hkind, hfs⟩
          obtain ⟨f, fs, ⟨rfl, hv⟩, htail, rfl⟩ := List.forall₂_cons_left_iff.1 hfs
          exact ⟨f.2, hv, kind', fs, ⟨hkind, htail⟩, rfl⟩

def readValue (depth : Nat) (read : Value → Read α) (n : Node) : Read α := do read (← ofJson (n.value depth))

theorem forall₂_valuesIn (h : (ms.filter (·.1 ≠ tagName)).Forall₂ (HasValue depth) fs) (hname : name ≠ tagName) :
    (valuesIn name ms).Forall₂ (fun n v => n.value depth = .ok v) (valuesIn name fs) := by
  induction ms generalizing fs with
  | nil =>
      cases h
      exact .nil
  | cons m ms ih =>
      obtain ⟨other, n⟩ := m
      by_cases htag : other = tagName
      · rw [List.filter_cons_of_neg (by simpa using htag)] at h
        rw [valuesIn_cons_of_ne fun heq => hname (heq.symm.trans htag)]
        exact ih h
      · rw [List.filter_cons_of_pos (by simpa using htag)] at h
        obtain ⟨⟨other', v⟩, fs, ⟨heq, hv⟩, hfs, rfl⟩ := List.forall₂_cons_left_iff.1 h
        cases heq
        by_cases hother : other = name
        · subst hother
          rw [valuesIn_cons_self, valuesIn_cons_self]
          exact .cons hv (ih hfs)
        · rw [valuesIn_cons_of_ne hother, valuesIn_cons_of_ne hother]
          exact ih hfs

theorem fills_readValue {read : Value → Read α} {ns : List Node} {vs : List Value}
    (h : ns.Forall₂ (fun n v => n.value depth = .ok v) vs) :
    Fills (readValue depth read) known ns filled ↔ Fills read known vs filled := by
  induction h generalizing known with
  | nil => rw [fills_nil, fills_nil]
  | cons hv _ ih => simp [fills_cons, readValue, hv, ofJson, bind, Except.bind, ih]

def DescribesFields (depth : Nat) (ms : List (String × Node)) (kind : DescriptorKind) (d : Descriptor) : Prop :=
  ∀ f ∈ kind.fields, ∃ a, d.get? f = some a ∧ Says (readValue depth f.read) f.default? (valuesIn f.name ms) a

/-- What the members of an object say of a descriptor; all but the tag have to have a value. -/
structure DescribesDescriptor (depth : Nat) (ms : List (String × Node)) (d : Descriptor) : Prop where
  fields : ∃ kind, Says kindAt none (valuesIn tagName ms) kind ∧ DescribesFields depth ms kind d
  values : ∀ m ∈ ms, m.1 ≠ tagName → ∃ v, m.2.value depth = .ok v

theorem ofFields_eq_ok (h : (ms.filter (·.1 ≠ tagName)).Forall₂ (HasValue depth) fs) {kind : DescriptorKind}
    {d : Descriptor} : ofFields kind fs = .ok d ↔ DescribesFields depth ms kind d := by
  have hfills {α : Type} (name : String) (hname : name ≠ tagName) (read : Value → Read α) (filled : Option α) :
      Fills read none (valuesIn name fs) filled ↔ Fills (readValue depth read) none (valuesIn name ms) filled :=
    (fills_readValue (forall₂_valuesIn h hname)).symm
  cases kind with
  | template =>
      rw [ofFields, templateFields_eq_ok]
      simp only [hfills "template" (by decide), hfills "escape" (by decide), DescribesFields, DescriptorKind.fields,
        List.forall_mem_cons]
      constructor
      · rintro ⟨text, escape, htemplate, hescape, rfl⟩
        exact ⟨⟨text, rfl, says_none.2 htemplate⟩, ⟨_, rfl, says_some.2 ⟨escape, hescape, rfl⟩⟩, by simp⟩
      · rintro ⟨⟨text, htext, htemplate⟩, ⟨escape, hd, hescape⟩, -⟩
        obtain ⟨escape', hfilled, rfl⟩ := says_some.1 hescape
        refine ⟨text, escape', says_none.1 htemplate, hfilled, ?_⟩
        cases d with
        | command => cases htext
        | template =>
            cases htext
            cases hd
            rfl
  | command =>
      rw [ofFields, commandFields_eq_ok]
      simp only [hfills "program" (by decide), hfills "args" (by decide), hfills "trim_trailing_newline" (by decide),
        DescribesFields, DescriptorKind.fields, List.forall_mem_cons]
      constructor
      · rintro ⟨program, args, trim, hprogram, hargs, htrim, rfl⟩
        exact ⟨⟨program, rfl, says_none.2 hprogram⟩, ⟨_, rfl, says_some.2 ⟨args, hargs, rfl⟩⟩,
          ⟨_, rfl, says_some.2 ⟨trim, htrim, rfl⟩⟩, by simp⟩
      · rintro ⟨⟨program, hd₁, hprogram⟩, ⟨args, hd₂, hargs⟩, ⟨trim, hd₃, htrim⟩, -⟩
        obtain ⟨args', hargs', rfl⟩ := says_some.1 hargs
        obtain ⟨trim', htrim', rfl⟩ := says_some.1 htrim
        refine ⟨program, args', trim', says_none.1 hprogram, hargs', htrim', ?_⟩
        cases d with
        | template => cases hd₁
        | command =>
            cases hd₁
            cases hd₂
            cases hd₃
            rfl

theorem exists_hasValue :
    (∃ fs, ms.Forall₂ (HasValue depth) fs) ↔ ∀ m ∈ ms, ∃ v, m.2.value depth = .ok v := by
  induction ms with
  | nil => exact iff_of_true ⟨[], .nil⟩ (by simp)
  | cons m ms ih =>
      rw [List.forall_mem_cons, ← ih]
      constructor
      · rintro ⟨fs, hfs⟩
        obtain ⟨f, fs, ⟨-, hv⟩, htail, rfl⟩ := List.forall₂_cons_left_iff.1 hfs
        exact ⟨⟨f.2, hv⟩, fs, htail⟩
      · rintro ⟨⟨v, hv⟩, fs, hfs⟩
        exact ⟨(m.1, v) :: fs, .cons ⟨rfl, hv⟩ hfs⟩

theorem descriptorAt_eq_ok {n : Node} (h : n.IsObjectOf ms) {d : Descriptor} :
    descriptorAt depth n = .ok d ↔ DescribesDescriptor (depth - 1) ms d := by
  obtain ⟨members, rfl, hms⟩ := h
  have hvalues : (∃ fs, (ms.filter (·.1 ≠ tagName)).Forall₂ (HasValue (depth - 1)) fs) ↔
      ∀ m ∈ ms, m.1 ≠ tagName → ∃ v, m.2.value (depth - 1) = .ok v := by
    simp [exists_hasValue]
  rw [descriptorAt]
  simp only [bind_eq_ok, Prod.exists, tagged_eq_ok hms, ← says_none]
  constructor
  · rintro ⟨kind, fs, ⟨hkind, hfs⟩, hd⟩
    exact ⟨⟨kind, hkind, (ofFields_eq_ok hfs).1 hd⟩, hvalues.1 ⟨fs, hfs⟩⟩
  · rintro ⟨⟨kind, hkind, hd⟩, hv⟩
    obtain ⟨fs, hfs⟩ := hvalues.2 hv
    exact ⟨kind, fs, ⟨hkind, hfs⟩, (ofFields_eq_ok hfs).2 hd⟩

end Descriptor

/-! ### The fields of settings -/

namespace Field

def Content : Field → Type
  | .dsl => Table String Descriptor
  | .packages => Table String String
  | .packageRoots => List String
  | .fusionPath | .fileExtension => String

def readAt : (f : Field) → Node → Read f.Content
  | .dsl => tableAt (descriptorAt descriptorDepth)
  | .packages => tableAt pathAt
  | .packageRoots => pathsAt
  | .fusionPath => pathAt
  | .fileExtension => textAt "a string"

theorem name_injective : Function.Injective Field.name := by
  intro f g h
  have hsome := congrArg ofName? h
  rw [ofName?_name, ofName?_name] at hsome
  exact Option.some.inj hsome

theorem name_of_ofName? {f : Field} {name : String} (h : ofName? name = some f) : f.name = name := by
  rw [ofName?] at h
  simpa using List.find?_some h

theorem ne_of_ofName? {name : String} (h : ofName? name = none) (f : Field) : f.name ≠ name := by
  rintro rfl
  rw [ofName?_name] at h
  cases h

end Field

def get (s : Settings) : (f : Field) → f.Content
  | .dsl => s.dsl
  | .packages => s.packages
  | .packageRoots => s.packageRoots
  | .fusionPath => s.fusionPath
  | .fileExtension => s.fileExtension

theorem eq_of_get {s t : Settings} (h : ∀ f, s.get f = t.get f) : s = t := by
  cases s
  cases t
  obtain rfl := h .dsl
  obtain rfl := h .packages
  obtain rfl := h .packageRoots
  obtain rfl := h .fusionPath
  obtain rfl := h .fileExtension
  rfl

namespace Draft

def get (d : Draft) : (f : Field) → Option f.Content
  | .dsl => d.dsl
  | .packages => d.packages
  | .packageRoots => d.packageRoots
  | .fusionPath => d.fusionPath
  | .fileExtension => d.fileExtension

def put (d : Draft) : (f : Field) → f.Content → Draft
  | .dsl, a => { d with dsl := some a }
  | .packages, a => { d with packages := some a }
  | .packageRoots, a => { d with packageRoots := some a }
  | .fusionPath, a => { d with fusionPath := some a }
  | .fileExtension, a => { d with fileExtension := some a }

theorem read_eq_ok {d d' : Draft} {n : Node} {f : Field} :
    d.read n f = .ok d' ↔ ∃ a, f.readAt n = .ok a ∧ d.put f a = d' := by
  cases f <;> simp [read, Field.readAt, put, Field.Content] 

theorem has_eq (d : Draft) (f : Field) : d.has f = (d.get f).isSome := by cases f <;> rfl

theorem get_put_self (d : Draft) (f : Field) (a : f.Content) : (d.put f a).get f = some a := by cases f <;> rfl

theorem get_put_of_ne (d : Draft) {f g : Field} (a : f.Content) (h : g ≠ f) : (d.put f a).get g = d.get g := by
  cases f <;> cases g <;> first | rfl | exact absurd rfl h

theorem get_settings (d : Draft) (f : Field) : d.settings.get f = (d.get f).getD (({} : Settings).get f) := by
  cases f <;> rfl

theorem exists_get (filled : (f : Field) → Option f.Content) : ∃ d : Draft, ∀ f, d.get f = filled f :=
  ⟨⟨filled .dsl, filled .packages, filled .packageRoots, filled .fusionPath, filled .fileExtension⟩,
    fun f => by cases f <;> rfl⟩

end Draft

theorem Draft.eq_of_get {d d' : Draft} (h : ∀ f, d.get f = d'.get f) : d = d' := by
  cases d
  cases d'
  obtain rfl := h .dsl
  obtain rfl := h .packages
  obtain rfl := h .packageRoots
  obtain rfl := h .fusionPath
  obtain rfl := h .fileExtension
  rfl

section Members

variable {d d' : Draft} {key : Quoted} {n : Node} {tail members : Members} {ms : List (String × Node)}

theorem draftOfMembers_other {name : String} (hkey : key.text = .ok name) (hname : Field.ofName? name = none) :
    draftOfMembers d (.cons key n tail) = .ok d' ↔ n.skip = .ok () ∧ draftOfMembers d tail = .ok d' := by
  conv_lhs => unfold draftOfMembers
  simp [hkey, hname, Unique.exists_iff]

theorem draftOfMembers_field {f : Field} (hkey : key.text = .ok f.name) :
    draftOfMembers d (.cons key n tail) = .ok d' ↔
      d.get f = none ∧ ∃ a, f.readAt n = .ok a ∧ draftOfMembers (d.put f a) tail = .ok d' := by
  conv_lhs => unfold draftOfMembers
  cases hf : d.get f with
  | none => simp [hkey, Field.ofName?_name, d.has_eq, hf, Draft.read_eq_ok]
  | some a => simp [hkey, Field.ofName?_name, d.has_eq, hf]

theorem fills_fields_cons {f : Field} :
    (∀ g : Field, Fills g.readAt (d.get g) (valuesIn g.name ((f.name, n) :: ms)) (d'.get g)) ↔
      d.get f = none ∧ ∃ a, f.readAt n = .ok a ∧
        ∀ g : Field, Fills g.readAt ((d.put f a).get g) (valuesIn g.name ms) (d'.get g) := by
  have hself : Fills f.readAt (d.get f) (valuesIn f.name ((f.name, n) :: ms)) (d'.get f) ↔
      d.get f = none ∧ ∃ a, f.readAt n = .ok a ∧ Fills f.readAt (some a) (valuesIn f.name ms) (d'.get f) := by
    rw [valuesIn_cons_self, fills_cons]
  have hother {g : Field} (hg : g ≠ f) : valuesIn g.name ((f.name, n) :: ms) = valuesIn g.name ms :=
    valuesIn_cons_of_ne fun heq => hg (Field.name_injective heq.symm)
  constructor
  · intro h
    obtain ⟨hnone, a, ha, hfilled⟩ := hself.1 (h f)
    refine ⟨hnone, a, ha, fun g => ?_⟩
    by_cases hg : g = f
    · subst hg
      rw [Draft.get_put_self]
      exact hfilled
    · rw [d.get_put_of_ne a hg, ← hother hg]
      exact h g
  · rintro ⟨hnone, a, ha, h⟩ g
    by_cases hg : g = f
    · subst hg
      refine hself.2 ⟨hnone, a, ha, ?_⟩
      rw [← d.get_put_self g a]
      exact h g
    · rw [hother hg, ← d.get_put_of_ne a hg]
      exact h g

theorem draftOfMembers_eq_ok (h : members.Named ms) :
    draftOfMembers d members = .ok d' ↔ (∀ m ∈ ms, Field.ofName? m.1 = none → m.2.skip = .ok ()) ∧
      ∀ f, Fills f.readAt (d.get f) (valuesIn f.name ms) (d'.get f) := by
  induction h generalizing d with
  | closed =>
      simp only [draftOfMembers, valuesIn_nil, fills_nil, Except.ok.injEq, List.not_mem_nil, false_implies, implies_true,
        true_and]
      constructor
      · rintro rfl
        exact fun _ => rfl
      · intro h
        exact Draft.eq_of_get fun f => (h f).symm
  | @cons key name n tail ms hkey _ ih =>
      rw [List.forall_mem_cons]
      cases hname : Field.ofName? name with
      | none =>
          have hother (f : Field) : valuesIn f.name ((name, n) :: ms) = valuesIn f.name ms :=
            valuesIn_cons_of_ne fun heq => Field.ne_of_ofName? hname f heq.symm
          rw [draftOfMembers_other hkey hname, ih]
          simp only [hother, forall_const, and_assoc]
      | some f =>
          obtain rfl := Field.name_of_ofName? hname
          rw [draftOfMembers_field hkey, fills_fields_cons]
          simp only [ih, reduceCtorEq, false_implies, true_and]
          grind

end Members

theorem exists_named_of_draftOfMembers {d d' : Draft} {members : Members} (h : draftOfMembers d members = .ok d') :
    ∃ ms, members.Named ms := by
  cases members with
  | closed => exact ⟨[], .closed⟩
  | broken b => cases h
  | cons key value tail =>
      obtain ⟨name, hname, h⟩ := bind_eq_ok.1 h
      have htail : ∃ ms, tail.Named ms := by
        split at h
        · obtain ⟨_, -, h⟩ := bind_eq_ok.1 h
          exact exists_named_of_draftOfMembers h
        · split at h
          · cases h
          · obtain ⟨d₁, -, h⟩ := bind_eq_ok.1 h
            exact exists_named_of_draftOfMembers h
      obtain ⟨ms, hms⟩ := htail
      exact ⟨(name, value) :: ms, .cons (ofJson_eq_ok.1 hname) hms⟩

/-- What the members of an object say of settings; those of other names only have to be well formed. -/
structure DescribesSettings (ms : List (String × Node)) (s : Settings) : Prop where
  fields : ∀ f : Field, Says f.readAt (some (({} : Settings).get f)) (valuesIn f.name ms) (s.get f)
  others : ∀ m ∈ ms, Field.ofName? m.1 = none → m.2.skip = .ok ()

theorem settingsAt_eq_ok {n : Node} {ms : List (String × Node)} (h : n.IsObjectOf ms) {s : Settings} :
    settingsAt n = .ok s ↔ DescribesSettings ms s := by
  obtain ⟨members, rfl, hms⟩ := h
  have hempty (f : Field) : ({} : Draft).get f = none := by cases f <;> rfl
  rw [settingsAt]
  simp only [bind_eq_ok, draftOfMembers_eq_ok hms, hempty]
  constructor
  · rintro ⟨d, ⟨hskip, hfills⟩, hd⟩
    cases hd
    exact ⟨fun f => says_some.2 ⟨d.get f, hfills f, d.get_settings f⟩, hskip⟩
  · rintro ⟨hfield, hskip⟩
    choose filled hfills hs using fun f => says_some.1 (hfield f)
    obtain ⟨d, hd⟩ := Draft.exists_get filled
    refine ⟨d, ⟨hskip, fun f => ?_⟩, congrArg Except.ok (eq_of_get fun f => ?_)⟩
    · rw [hd]
      exact hfills f
    · rw [d.get_settings, hd, hs]

end Settings

end Inlay
