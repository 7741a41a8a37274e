import Inlay.Proofs.Result
import Inlay.Settings.Parse
import Mathlib.Data.List.Basic

namespace Inlay

open Json

/-! ### Members by their names -/

namespace Json

/-- The members with their names, however these are spelled. -/
inductive Members.Named : Members → List (String × Node) → Prop
  | closed : Named .closed []
  | cons {key : Quoted} {name : String} {value : Node} {tail : Members} {ms : List (String × Node)}
      (hkey : key.text = .ok name) (h : Named tail ms) : Named (.cons key value tail) ((name, value) :: ms)

theorem Members.Named.unique {members : Members} {ms ms' : List (String × Node)} (h : members.Named ms)
    (h' : members.Named ms') : ms = ms' := by
  induction h generalizing ms' with
  | closed =>
      cases h'
      rfl
  | cons hkey _ ih =>
      cases h' with
      | cons hkey' h' =>
          obtain rfl := Except.ok.inj (hkey.symm.trans hkey')
          rw [ih h']

def Node.IsObjectOf (n : Node) (ms : List (String × Node)) : Prop := ∃ members, n = .object members ∧ members.Named ms

end Json

namespace Settings

variable {ν α : Type} {name other : String} {v : ν} {ms ms' : List (String × ν)}

def valuesIn (name : String) (ms : List (String × ν)) : List ν :=
  ms.filterMap fun m => if m.1 = name then some m.2 else none

@[simp] theorem valuesIn_nil : valuesIn name ([] : List (String × ν)) = [] := rfl

@[simp] theorem valuesIn_cons_self : valuesIn name ((name, v) :: ms) = v :: valuesIn name ms :=
  List.filterMap_cons_some (if_pos rfl)

@[simp] theorem valuesIn_cons_of_ne (h : other ≠ name) : valuesIn name ((other, v) :: ms) = valuesIn name ms :=
  List.filterMap_cons_none (if_neg h)

@[simp] theorem valuesIn_append : valuesIn name (ms ++ ms') = valuesIn name ms ++ valuesIn name ms' :=
  List.filterMap_append

theorem perm_valuesIn (name : String) (h : ms.Perm ms') : (valuesIn name ms).Perm (valuesIn name ms') := h.filterMap _

/-- A field that may be given once is filled by the values that stand under its name. -/
inductive Fills (read : ν → Read α) : Option α → List ν → Option α → Prop
  | keep (known : Option α) : Fills read known [] known
  | take {v : ν} {a : α} (h : read v = .ok a) : Fills read none [v] (some a)

/-- A field is what the only value under its name says, or its default, if it has one. -/
inductive Says (read : ν → Read α) (default? : Option α) : List ν → α → Prop
  | default {a : α} (h : default? = some a) : Says read default? [] a
  | given {v : ν} {a : α} (h : read v = .ok a) : Says read default? [v] a

variable {read : ν → Read α} {known filled default? : Option α} {vs vs' : List ν} {a : α}

theorem fills_nil : Fills read known [] filled ↔ filled = known := by
  constructor
  · intro h
    cases h
    rfl
  · rintro rfl
    exact .keep _

theorem fills_cons : Fills read known (v :: vs) filled ↔
    known = none ∧ ∃ a, read v = .ok a ∧ Fills read (some a) vs filled := by
  constructor
  · intro h
    cases h with
    | take h => exact ⟨rfl, _, h, .keep _⟩
  · rintro ⟨rfl, a, ha, h⟩
    cases h
    exact .take ha

theorem says_nil : Says read default? [] a ↔ default? = some a := by
  constructor
  · intro h
    cases h with
    | default h => exact h
  · exact .default

theorem says_singleton : Says read default? [v] a ↔ read v = .ok a := by
  constructor
  · intro h
    cases h with
    | given h => exact h
  · exact .given

theorem says_iff : Says read default? vs a ↔ ∃ filled, Fills read none vs filled ∧ filled.or default? = some a := by
  constructor
  · intro h
    cases h with
    | default h => exact ⟨none, .keep _, h⟩
    | given h => exact ⟨some a, .take h, rfl⟩
  · rintro ⟨filled, h, ha⟩
    cases h with
    | keep => exact .default ha
    | take h =>
        cases ha
        exact .given h

theorem says_none : Says read none vs a ↔ Fills read none vs (some a) := by
  simp [says_iff]

theorem says_some {default : α} : Says read (some default) vs a ↔
    ∃ filled, Fills read none vs filled ∧ a = filled.getD default := by
  simp only [says_iff]
  grind

theorem Says.perm (h : Says read default? vs a) (hperm : vs.Perm vs') : Says read default? vs' a := by
  cases h with
  | default h =>
      rw [← hperm.nil_eq]
      exact .default h
  | given h =>
      rw [List.perm_singleton.1 hperm.symm]
      exact .given h

theorem Says.unique {b : α} (ha : Says read default? vs a) (hb : Says read default? vs b) : a = b := by
  cases ha with
  | default ha => exact Option.some.inj (ha.symm.trans (says_nil.1 hb))
  | given ha => exact Except.ok.inj (ha.symm.trans (says_singleton.1 hb))

theorem Says.length_le (h : Says read default? vs a) : vs.length ≤ 1 := by
  cases h <;> simp

end Settings

end Inlay
