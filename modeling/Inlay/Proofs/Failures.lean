import Inlay.Proofs.Commute
import Inlay.Proofs.Registrations

namespace Inlay

theorem mapM_congr {m : Type → Type} [Monad m] [LawfulMonad m] {α β : Type} {f g : α → m β} {as : List α}
    (h : ∀ a ∈ as, f a = g a) : as.mapM f = as.mapM g := by
  induction as with
  | nil => rfl
  | cons a as ih =>
      rw [List.mapM_cons, List.mapM_cons, h a List.mem_cons_self, ih fun b hb => h b (List.mem_cons_of_mem _ hb)]

namespace Transpiler

/-- Asked for the codes in their order, the transpiler fails for the first time with this reason. What it did
to the disk until then stays. -/
inductive FailsFirst (t : Transpiler) : List String → Disk → TranspileError → Disk → Prop
  | here {code : String} {codes : List String} {d d' : Disk} {reason : TranspileError}
      (h : (t code).run d = (.error reason, d')) : FailsFirst t (code :: codes) d reason d'
  | later {code text : String} {codes : List String} {d d₁ d' : Disk} {reason : TranspileError}
      (hcode : (t code).run d = (.ok text, d₁)) (h : FailsFirst t codes d₁ reason d') :
      FailsFirst t (code :: codes) d reason d'

variable {t : Transpiler} {codes : List String} {d d' : Disk} {reason : TranspileError}

theorem run_mapM_eq_error : (codes.mapM t).run d = (.error reason, d') ↔ t.FailsFirst codes d reason d' := by
  constructor
  · intro h
    induction codes generalizing d with
    | nil => cases h
    | cons code codes ih =>
        rw [List.mapM_cons] at h
        obtain ⟨answer, d₁, hcode⟩ : ∃ answer d₁, (t code).run d = (answer, d₁) := ⟨_, _, rfl⟩
        cases answer with
        | error reason' =>
            rw [run_bind_of_error hcode] at h
            cases h
            exact .here hcode
        | ok text =>
            rw [run_bind_of_ok hcode] at h
            obtain ⟨answers, d₂, hcodes⟩ : ∃ answers d₂, (codes.mapM t).run d₁ = (answers, d₂) := ⟨_, _, rfl⟩
            cases answers with
            | error reason' =>
                rw [run_bind_of_error hcodes] at h
                cases h
                exact .later hcode (ih hcodes)
            | ok texts =>
                rw [run_bind_of_ok hcodes] at h
                cases h
  · intro h
    induction h with
    | here hcode =>
        rw [List.mapM_cons]
        exact run_bind_of_error hcode
    | later hcode _ ih =>
        rw [List.mapM_cons, run_bind_of_ok hcode]
        exact run_bind_of_error ih

/-- The reason for which the transpiler fails on a code, asked on this disk. -/
def failure? (t : Transpiler) (d : Disk) (code : String) : Option TranspileError :=
  match ((t code).run d).1 with
  | .error reason => some reason
  | .ok _ => none

theorem failure?_of_error {code : String} (h : (t code).run d = (.error reason, d')) : t.failure? d code = some reason := by
  rw [failure?, h]

theorem failure?_of_ok {code text : String} (h : (t code).run d = (.ok text, d')) : t.failure? d code = none := by
  rw [failure?, h]

theorem IsPure.eq_of_run (h : t.IsPure) {code : String} {answer : Except TranspileError String}
    (hrun : (t code).run d = (answer, d')) : d' = d := by
  obtain ⟨answer', hanswer⟩ := h
  rw [hanswer] at hrun
  exact (Prod.mk.inj hrun).2.symm

/-- A pure transpiler is asked on the same disk each time, so that the first code it fails on can be looked up. -/
theorem IsPure.failsFirst_iff (h : t.IsPure) :
    t.FailsFirst codes d reason d' ↔ codes.findSome? (t.failure? d) = some reason ∧ d' = d := by
  constructor
  · intro hfails
    induction hfails with
    | here hcode =>
        obtain rfl := h.eq_of_run hcode
        rw [List.findSome?_cons, failure?_of_error hcode]
        exact ⟨rfl, rfl⟩
    | later hcode _ ih =>
        obtain rfl := h.eq_of_run hcode
        rw [List.findSome?_cons, failure?_of_ok hcode]
        exact ih
  · rintro ⟨hfind, rfl⟩
    induction codes with
    | nil => cases hfind
    | cons code codes ih =>
        obtain ⟨answer, d₁, hcode⟩ : ∃ answer d₁, (t code).run d' = (answer, d₁) := ⟨_, _, rfl⟩
        obtain rfl := h.eq_of_run hcode
        rw [List.findSome?_cons] at hfind
        cases answer with
        | error reason' =>
            rw [failure?_of_error hcode] at hfind
            cases hfind
            exact .here hcode
        | ok text =>
            rw [failure?_of_ok hcode] at hfind
            exact .later hcode (ih hfind)

end Transpiler

namespace Registry

variable {r r' : Registry} {buffer target : String} {t t' : Transpiler} {d d' : Disk} {e : Error}

theorem run_expand_eq_error (ht : r.resolve target = .ok t) : (r.expand buffer target).run d = (.error e, d') ↔
    ∃ reason, t.FailsFirst ((sitesOf target buffer).map (·.code)) d reason d' ∧ e = .transpileFailure target reason := by
  have hask := Expansion.mapM_sitesFrom t target.toList 0 (pieces buffer.toList)
  rw [String.ofList_toList] at hask
  have hcodes : ((sitesOf target buffer).map (·.code)).mapM t =
      ((pieces buffer.toList).mapM (Expansion.ask t target.toList) >>= fun parts =>
        pure (parts.filterMap Part.answer)) := by
    rw [List.mapM_map]
    exact hask
  simp only [← Transpiler.run_mapM_eq_error, hcodes]
  rw [run_expand ht]
  obtain ⟨answer, d₁, hparts⟩ : ∃ answer d₁,
      ((pieces buffer.toList).mapM (Expansion.ask t target.toList)).run d = (answer, d₁) := ⟨_, _, rfl⟩
  rw [hparts]
  cases answer with
  | error reason =>
      rw [run_bind_of_error hparts]
      constructor
      · intro h
        cases h
        exact ⟨reason, rfl, rfl⟩
      · rintro ⟨reason', h, rfl⟩
        cases h
        rfl
  | ok parts =>
      rw [run_bind_of_ok hparts]
      exact ⟨nofun, fun ⟨_, h, _⟩ => nomatch h⟩

/-- The identifiers of other call-sites and the text around them do not come to the transpiler. -/
theorem ask_congr (h : ∀ s ∈ sitesOf target buffer, t s.code = t' s.code) {p : Piece} (hp : p ∈ pieces buffer.toList) :
    Expansion.ask t target.toList p = Expansion.ask t' target.toList p := by
  cases p with
  | plain text => rfl
  | call identifier code =>
      by_cases hi : identifier = target.toList
      · subst hi
        obtain ⟨s, hs, hidentifier, hcode⟩ := mem_sitesFrom_iff.2 hp
        rw [String.ofList_toList] at hidentifier
        have hsame := h s (List.mem_filter.2 ⟨hs, by simpa using hidentifier⟩)
        rw [hcode] at hsame
        rw [Expansion.ask, Expansion.ask, hsame]
      · rw [Expansion.ask, Expansion.ask, if_neg hi, if_neg hi]

theorem expand_congr (ht : r.resolve target = .ok t) (ht' : r'.resolve target = .ok t')
    (h : ∀ s ∈ sitesOf target buffer, t s.code = t' s.code) : r.expand buffer target = r'.expand buffer target := by
  have hask : (pieces buffer.toList).mapM (Expansion.ask t target.toList) =
      (pieces buffer.toList).mapM (Expansion.ask t' target.toList) :=
    mapM_congr fun p hp => ask_congr h hp
  funext d
  change (r.expand buffer target).run d = (r'.expand buffer target).run d
  rw [run_expand ht, run_expand ht', hask]

theorem contains_eq_false_iff : r.contains target = false ↔ r.resolve target = .error (.unknownIdentifier target) := by
  rw [Bool.eq_false_iff, ne_eq, contains_iff_resolve]
  cases ht : r.resolve target with
  | error e =>
      obtain ⟨rfl, -⟩ := resolve_eq_error.1 ht
      simp
  | ok t => simp

theorem run_expand_eq_unknown {i : String} : (r.expand buffer target).run d = (.error (.unknownIdentifier i), d') ↔
    r.contains target = false ∧ i = target ∧ d' = d := by
  constructor
  · intro h
    cases ht : r.resolve target with
    | error e =>
        obtain ⟨rfl, -⟩ := resolve_eq_error.1 ht
        rw [run_expand_of_error ht] at h
        cases h
        exact ⟨contains_eq_false_iff.2 ht, rfl, rfl⟩
    | ok t =>
        obtain ⟨reason, -, he⟩ := (run_expand_eq_error ht).1 h
        cases he
  · rintro ⟨hnot, rfl, rfl⟩
    exact run_expand_of_error (contains_eq_false_iff.1 hnot) _ _

end Registry

/-- An expansion fails for an unknown target, or where the target's transpiler fails on a code of the target's
own call-sites; the first such code in the order of the buffer gives the reason. Nothing else of a registry
counts. -/
theorem expand_fails_with_its_sites (r : Registry) (buffer target : String) :
    (∀ i d d', (r.expand buffer target).run d = (.error (.unknownIdentifier i), d') ↔
      r.contains target = false ∧ i = target ∧ d' = d) ∧
    ∀ t, r.resolve target = .ok t →
      (∀ e d d', (r.expand buffer target).run d = (.error e, d') ↔
        ∃ reason, t.FailsFirst ((sitesOf target buffer).map (·.code)) d reason d' ∧ e = .transpileFailure target reason) ∧
      (t.IsPure → ∀ e d d', (r.expand buffer target).run d = (.error e, d') ↔
        ∃ reason, (sitesOf target buffer).findSome? (fun s => t.failure? d s.code) = some reason ∧
          e = .transpileFailure target reason ∧ d' = d) ∧
      ∀ (r' : Registry) (t' : Transpiler), r'.resolve target = .ok t' →
        (∀ s ∈ sitesOf target buffer, t s.code = t' s.code) → r.expand buffer target = r'.expand buffer target := by
  refine ⟨fun i d d' => Registry.run_expand_eq_unknown, fun t ht => ⟨fun e d d' => Registry.run_expand_eq_error ht, ?_, ?_⟩⟩
  · intro hpure e d d'
    rw [Registry.run_expand_eq_error ht]
    simp only [hpure.failsFirst_iff, List.findSome?_map, Function.comp_def, and_assoc, and_comm (a := d' = d)]
  · intro r' t' ht' hsame
    exact Registry.expand_congr ht ht' hsame

def Transpiler.choosy : Transpiler := fun code => if code = "2" then throw (.invalidOutput "cat") else return code

theorem Transpiler.isPure_choosy : choosy.IsPure := by
  refine ⟨fun code => if code = "2" then .error (.invalidOutput "cat") else .ok code, fun code d => ?_⟩
  by_cases h : code = "2"
  · simp only [choosy, if_pos h]
    rfl
  · simp only [choosy, if_neg h]
    rfl

def Registry.choosy : Registry := ⟨Table.empty.insert "md" .choosy⟩

/-- A transpiler that fails on the code of another identifier goes on like one that does not. -/
theorem choosy_fails_on_own_site :
    (Registry.choosy.expand "md`1`md`2`md`2`" "md").run .empty =
        (.error (.transpileFailure "md" (.invalidOutput "cat")), .empty) ∧
      Registry.choosy.expand "md`1`a`2`" "md" =
        (Registry.mk (Table.empty.insert "md" (.ofTemplate "{code}" .none))).expand "md`1`a`2`" "md" := by
  have hresolve : Registry.choosy.resolve "md" = .ok .choosy := rfl
  constructor
  · have hfind : (sitesOf "md" "md`1`md`2`md`2`").findSome? (fun s => Transpiler.choosy.failure? .empty s.code) =
        some (.invalidOutput "cat") := by decide +kernel
    obtain ⟨-, hfails⟩ := expand_fails_with_its_sites .choosy "md`1`md`2`md`2`" "md"
    obtain ⟨-, hpure, -⟩ := hfails _ hresolve
    exact (hpure Transpiler.isPure_choosy _ _ _).2 ⟨_, hfind, rfl, rfl⟩
  · obtain ⟨-, hfails⟩ := expand_fails_with_its_sites .choosy "md`1`a`2`" "md"
    obtain ⟨-, -, hcongr⟩ := hfails _ hresolve
    refine hcongr _ _ rfl fun s hs => ?_
    have hsites : sitesOf "md" "md`1`a`2`" = [⟨"md", "1", 0, 5⟩] := by decide +kernel
    rw [hsites] at hs
    obtain rfl := List.mem_singleton.1 hs
    have hcode : Template.expand "{code}" .none "1" = "1" := by decide +kernel
    have hleft : Transpiler.choosy "1" = (return "1" : Transpiling String) := if_neg (by decide)
    have hright : Transpiler.ofTemplate "{code}" .none "1" = (return "1" : Transpiling String) :=
      congrArg (fun text => (return text : Transpiling String)) hcode
    exact hleft.trans hright.symm

end Inlay
