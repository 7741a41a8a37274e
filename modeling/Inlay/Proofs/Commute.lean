import Inlay.Proofs.Substitution

namespace Inlay

section Pieces

variable {text rest : List Char}

theorem pieces_append_of_isInert (h : IsInert text) (rest : List Char) :
    pieces (text ++ rest) = pieces text ++ pieces rest := by
  induction text using text_induction with
  | nil => simp [pieces]
  | other c cs hc ih =>
      have hcs : IsInert cs := (show IsInert ([c] ++ cs) from h).of_append
      rw [List.cons_append, pieces_cons hc, pieces_cons hc, ih hcs, List.cons_append]
  | word w tail hw htail ih =>
      cases tail with
      | nil => exact absurd (List.append_nil w ▸ h) (not_isInert_of_isWord hw)
      | cons t tail =>
          rw [List.append_assoc, pieces_word_append hw (by simpa using htail), pieces_word_append hw htail,
            ih (IsInert.of_append h), List.cons_append]
  | call w code tail hw hcode ih => cases h.1 tick (by simp)
  | unclosed w body hw hbody => cases h.1 tick (by simp)

theorem exists_plain_of_isInert (h : IsInert text) {p : Piece} (hp : p ∈ pieces text) : ∃ s, p = .plain s := by
  cases p with
  | plain s => exact ⟨s, rfl⟩
  | call w code =>
      have htick : tick ∈ (pieces text).flatMap Piece.source :=
        List.mem_flatMap.2 ⟨_, hp, by simp [Piece.source]⟩
      rw [source_pieces] at htick
      cases h.1 tick htick

end Pieces

/-- Gives texts for call-sites, by identifier and code; those without one are left as they are. -/
abbrev Choice := String → String → Option String

namespace Choice

def orElse (f g : Choice) : Choice := fun w code => (f w code).or (g w code)

def among (targets : List String) (answer : String → String → String) : Choice :=
  fun w code => if w ∈ targets then some (answer w code) else none

theorem among_cons (target : String) (targets : List String) (answer : String → String → String) :
    among (target :: targets) answer = (among [target] answer).orElse (among targets answer) := by
  funext w code
  by_cases h : w = target <;> simp [among, orElse, h]

theorem among_perm {targets targets' : List String} (h : targets.Perm targets') (answer : String → String → String) :
    among targets answer = among targets' answer := by
  funext w code
  simp [among, h.mem_iff]

end Choice

def Piece.answer? (f : Choice) : Piece → Option String
  | .plain _ => none
  | .call w code => f (String.ofList w) (String.ofList code)

theorem Piece.answer?_orElse (f g : Choice) (p : Piece) : p.answer? (f.orElse g) = (p.answer? f).or (p.answer? g) := by
  cases p <;> rfl

namespace Part

variable {f : Choice} {p : Piece}

def ofPiece (f : Choice) (p : Piece) : Part := ⟨p, p.answer? f⟩

theorem result_ofPiece_of_some {t : String} (h : p.answer? f = some t) : (ofPiece f p).result = t.toList := by
  simp only [ofPiece, result, h]

theorem result_ofPiece_of_none (h : p.answer? f = none) : (ofPiece f p).result = p.source := by
  simp only [ofPiece, result, h, source]

end Part

def replaceAll (f : Choice) (text : List Char) : List Char :=
  (pieces text).flatMap fun p => (Part.ofPiece f p).result

def Choice.IsInertOn (f : Choice) (text : List Char) : Prop :=
  ∀ p ∈ pieces text, ∀ t ∈ p.answer? f, IsInert t.toList

section Replacing

variable {f g : Choice} {text : List Char}

theorem replaceAll_of_plain (h : ∀ p ∈ pieces text, p.answer? f = none) : replaceAll f text = text := by
  rw [replaceAll, List.flatMap_congr fun p hp => Part.result_ofPiece_of_none (h p hp), source_pieces]

theorem replaceAll_of_isInert (h : IsInert text) (f : Choice) : replaceAll f text = text :=
  replaceAll_of_plain fun p hp => by
    obtain ⟨s, rfl⟩ := exists_plain_of_isInert h hp
    rfl

theorem head_replaceAll {rest : List Char}
    (hrest : ∀ c ∈ rest.head?, isIdentifierChar c = false ∧ isTick c = false) (f : Choice) :
    ∀ c ∈ (replaceAll f rest).head?, isIdentifierChar c = false ∧ isTick c = false := by
  cases rest with
  | nil => simp [replaceAll, pieces]
  | cons t tail =>
      have ht : replaceAll f (t :: tail) = t :: replaceAll f tail := by
        rw [replaceAll, pieces_cons (hrest t rfl).1]
        rfl
      rw [ht]
      exact hrest

theorem pieces_replaceAll (h : f.IsInertOn text) : pieces (replaceAll f text) =
    (pieces text).flatMap fun p =>
      match p.answer? f with
      | some t => pieces t.toList
      | none => [p] := by
  induction text using text_induction with
  | nil => simp [replaceAll, pieces]
  | other c cs hc ih =>
      rw [Choice.IsInertOn, pieces_cons hc] at h
      have ih := ih fun p hp => h p (List.mem_cons_of_mem _ hp)
      rw [replaceAll, pieces_cons hc, List.flatMap_cons, List.flatMap_cons, ← ih]
      exact pieces_cons hc _
  | word w rest hw hrest ih =>
      rw [Choice.IsInertOn, pieces_word_append hw hrest] at h
      have ih := ih fun p hp => h p (List.mem_cons_of_mem _ hp)
      rw [replaceAll, pieces_word_append hw hrest, List.flatMap_cons, List.flatMap_cons, ← ih]
      exact pieces_word_append hw (head_replaceAll hrest f)
  | call w code rest hw hcode ih =>
      rw [Choice.IsInertOn, pieces_call_append hw hcode] at h
      have ih := ih fun p hp => h p (List.mem_cons_of_mem _ hp)
      rw [replaceAll, pieces_call_append hw hcode, List.flatMap_cons, List.flatMap_cons, ← ih]
      cases ha : (Piece.call w code).answer? f with
      | some t =>
          have ht := h _ List.mem_cons_self t ha
          rw [Part.result_ofPiece_of_some ha]
          exact pieces_append_of_isInert ht _
      | none =>
          rw [Part.result_ofPiece_of_none ha]
          simpa [Piece.source, replaceAll] using pieces_call_append hw hcode (replaceAll f rest)
  | unclosed w body hw hbody =>
      rw [replaceAll, pieces_unclosed hw hbody, List.flatMap_singleton, Part.result_ofPiece_of_none rfl,
        Piece.source, pieces_unclosed hw hbody]
      rfl

theorem replaceAll_replaceAll (h : f.IsInertOn text) (g : Choice) :
    replaceAll g (replaceAll f text) = replaceAll (f.orElse g) text := by
  rw [replaceAll, pieces_replaceAll h, List.flatMap_assoc, replaceAll]
  apply List.flatMap_congr
  intro p hp
  cases ha : p.answer? f with
  | some t =>
      rw [Part.result_ofPiece_of_some (t := t) (by rw [Piece.answer?_orElse, ha]; rfl)]
      exact replaceAll_of_isInert (h p hp t ha) g
  | none =>
      have hor : p.answer? (f.orElse g) = p.answer? g := by rw [Piece.answer?_orElse, ha, Option.none_or]
      simp only [List.flatMap_singleton, Part.ofPiece, hor]

end Replacing

def CallSite.replacedBy (s : CallSite) (text : String) : Replacement := ⟨s.start, s.stop, s.text, text⟩

theorem CallSite.text_eq (w code : List Char) (start stop : Nat) :
    (⟨String.ofList w, String.ofList code, start, stop⟩ : CallSite).text = String.ofList (Piece.call w code).source := by
  apply String.toList_injective
  simp [CallSite.text, Piece.source]

theorem records_ofPiece (f : Choice) (offset : Nat) (ps : List Piece) :
    Expansion.records offset (ps.map (Part.ofPiece f)) =
      (sitesFrom offset ps).filterMap fun s => (f s.identifier s.code).map s.replacedBy := by
  induction ps generalizing offset with
  | nil => rfl
  | cons p ps ih =>
      cases p with
      | plain s => exact ih _
      | call w code =>
          cases ha : f (String.ofList w) (String.ofList code) with
          | none => simp [Expansion.records, sitesFrom, Part.ofPiece, Piece.answer?, ha, Part.source, ih]
          | some t =>
              simp [Expansion.records, sitesFrom, Part.ofPiece, Piece.answer?, ha, Part.source, ih,
                CallSite.replacedBy, CallSite.text_eq]

section Sites

variable {f : Choice} {text : List Char} {target : String}

theorem mem_sitesFrom_iff {w code : List Char} {offset : Nat} {ps : List Piece} :
    (∃ s ∈ sitesFrom offset ps, s.identifier = String.ofList w ∧ s.code = String.ofList code) ↔
      .call w code ∈ ps := by
  induction ps generalizing offset with
  | nil => simp [sitesFrom]
  | cons p ps ih =>
      cases p with
      | plain s => simpa [sitesFrom] using ih
      | call v body =>
          simp only [sitesFrom, List.mem_cons, exists_eq_or_imp, ih, Piece.call.injEq, String.ofList_inj,
            eq_comm (a := v), eq_comm (a := body)]

theorem mem_scan_replaceAll (h : f.IsInertOn text) {s : CallSite} (hs : s ∈ scan (String.ofList (replaceAll f text))) :
    ∃ s' ∈ scan (String.ofList text), s'.identifier = s.identifier ∧ s'.code = s.code := by
  have hmem : .call s.identifier.toList s.code.toList ∈ pieces (replaceAll f text) := by
    rw [scan, String.toList_ofList] at hs
    exact mem_sitesFrom_iff.1 ⟨s, hs, String.ofList_toList.symm, String.ofList_toList.symm⟩
  rw [pieces_replaceAll h] at hmem
  obtain ⟨p, hp, hmem⟩ := List.mem_flatMap.1 hmem
  split at hmem
  · next t ht =>
      obtain ⟨_, hplain⟩ := exists_plain_of_isInert (h p hp t ht) hmem
      cases hplain
  · obtain rfl := List.mem_singleton.1 hmem
    simpa [scan] using mem_sitesFrom_iff.2 hp

def Piece.codeOf? (target : String) : Piece → Option String
  | .plain _ => none
  | .call w code => if String.ofList w = target then some (String.ofList code) else none

theorem map_code_sitesFrom (target : String) (offset : Nat) (ps : List Piece) :
    ((sitesFrom offset ps).filter (·.identifier = target)).map (·.code) = ps.filterMap (Piece.codeOf? target) := by
  induction ps generalizing offset with
  | nil => rfl
  | cons p ps ih =>
      cases p with
      | plain s => exact ih _
      | call w code => by_cases hw : String.ofList w = target <;> simp [sitesFrom, Piece.codeOf?, hw, ih]

theorem map_code_sitesOf (target buffer : String) :
    (sitesOf target buffer).map (·.code) = (pieces buffer.toList).filterMap (Piece.codeOf? target) :=
  map_code_sitesFrom target 0 (pieces buffer.toList)

/-- The call-sites of an identifier that is not replaced stay, with their codes and in their order. -/
theorem map_code_sitesOf_replaceAll (h : f.IsInertOn text) (hf : ∀ code, f target code = none) :
    (sitesOf target (String.ofList (replaceAll f text))).map (·.code) =
      (sitesOf target (String.ofList text)).map (·.code) := by
  rw [map_code_sitesOf, map_code_sitesOf, String.toList_ofList, String.toList_ofList, pieces_replaceAll h,
    List.filterMap_flatMap, List.filterMap_eq_flatMap_toList]
  apply List.flatMap_congr
  intro p hp
  cases ha : p.answer? f with
  | none => cases hc : p.codeOf? target <;> simp [hc]
  | some t =>
      have hcode : p.codeOf? target = none := by
        cases p with
        | plain s => rfl
        | call w code =>
            apply if_neg
            rintro rfl
            rw [Piece.answer?, hf] at ha
            cases ha
      have hnone : (pieces t.toList).filterMap (Piece.codeOf? target) = [] := by
        apply List.filterMap_eq_nil_iff.2
        intro p' hp'
        obtain ⟨s, rfl⟩ := exists_plain_of_isInert (h p hp t ha) hp'
        rfl
      rw [hnone, hcode]
      rfl

end Sites

def Transpiler.Gives (t : Transpiler) (code text : String) : Prop := ∀ d, ((t code).run d).1 = .ok text

theorem exists_run_mapM {ε σ α β : Type} {k : α → ExceptT ε (StateM σ) β} {g : α → β} {as : List α}
    (h : ∀ a ∈ as, ∀ s, ((k a).run s).1 = .ok (g a)) (s : σ) :
    ∃ s', (as.mapM k).run s = (.ok (as.map g), s') := by
  induction as generalizing s with
  | nil => exact ⟨s, rfl⟩
  | cons a as ih =>
      obtain ⟨s₁, ha⟩ : ∃ s₁, (k a).run s = (.ok (g a), s₁) := ⟨_, Prod.ext (h a List.mem_cons_self s) rfl⟩
      obtain ⟨s₂, has⟩ := ih (fun b hb => h b (List.mem_cons_of_mem _ hb)) s₁
      refine ⟨s₂, ?_⟩
      rw [List.mapM_cons, run_bind_of_ok ha, run_bind_of_ok has]
      rfl

def Expansion.lastContent (buffer : String) : List Expansion → String
  | [] => buffer
  | x :: xs => lastContent x.content xs

/-- The content has the texts of the records in place of their spans and the gaps of the buffer between them. -/
def IsSplice (buffer : String) (rs : List Replacement) (content : String) : Prop :=
  (∀ p ∈ rs, IsSlice buffer p.start p.stop p.source) ∧ ∃ lead gaps,
    List.Forall₂ (fun b gap => IsSlice buffer b.1 b.2 gap) (gapBounds buffer.utf8ByteSize 0 rs) (lead :: gaps) ∧
    buffer = weave lead (rs.map (·.source)) gaps ∧ content = weave lead (rs.map (·.transpiled)) gaps

theorem isSplice_replaceAll (f : Choice) (buffer : String) :
    IsSplice buffer ((scan buffer).filterMap fun s => (f s.identifier s.code).map s.replacedBy)
      (String.ofList (replaceAll f buffer.toList)) := by
  have hsource : ((pieces buffer.toList).map (Part.ofPiece f)).flatMap Part.source = buffer.toList := by
    rw [List.flatMap_map]
    exact source_pieces buffer.toList
  have hresult : ((pieces buffer.toList).map (Part.ofPiece f)).flatMap Part.result = replaceAll f buffer.toList := by
    rw [List.flatMap_map]
    rfl
  have hsize : byteLength buffer.toList = buffer.utf8ByteSize := by
    rw [← utf8ByteSize_ofList, String.ofList_toList]
  rw [scan, ← records_ofPiece]
  refine ⟨fun p hp => ?_, String.ofList (Part.lead ((pieces buffer.toList).map (Part.ofPiece f))),
    Part.gaps ((pieces buffer.toList).map (Part.ofPiece f)), ?_, ?_, ?_⟩
  · have := Expansion.isSlice_of_mem_records [] _ hp
    rwa [List.nil_append, hsource, String.ofList_toList] at this
  · have := Expansion.isSlice_gaps [] [] ((pieces buffer.toList).map (Part.ofPiece f))
    rwa [List.nil_append, List.nil_append, hsource, String.ofList_toList, hsize] at this
  · rw [Expansion.weave_source, hsource, String.ofList_toList]
  · rw [Expansion.weave_transpiled, hresult]

namespace Registry

variable {r : Registry} {targets : List String} {answer : String → String → String} {buffer target : String}

/-- Expands the buffer for one identifier after the other, each time what the expansion before gave. -/
def expandInTurn (r : Registry) : String → List String → ExceptT Error (StateM Disk) (List Expansion)
  | _, [] => return []
  | buffer, target :: targets => do
    let x ← r.expand buffer target
    let xs ← r.expandInTurn x.content targets
    return x :: xs

/-- The targets are registered, and their call-sites in the buffer have inert answers. -/
def Settles (r : Registry) (targets : List String) (answer : String → String → String) (buffer : String) : Prop :=
  ∀ i ∈ targets, ∃ t, r.resolve i = .ok t ∧
    ∀ s ∈ sitesOf i buffer, t.Gives s.code (answer i s.code) ∧ IsInert (answer i s.code).toList

theorem Settles.isInertOn (h : r.Settles targets answer buffer) :
    (Choice.among targets answer).IsInertOn buffer.toList := by
  intro p hp text htext
  cases p with
  | plain s => cases htext
  | call w code =>
      simp only [Piece.answer?, Choice.among] at htext
      split at htext
      · next hw =>
          cases htext
          obtain ⟨s, hs, hsw, hscode⟩ := mem_sitesFrom_iff.2 hp
          obtain ⟨t, -, hsites⟩ := h _ hw
          rw [← hscode]
          exact (hsites s (List.mem_filter.2 ⟨hs, by simpa using hsw⟩)).2
      · cases htext

theorem Settles.replaceAll {f : Choice} (h : r.Settles targets answer buffer) (hf : f.IsInertOn buffer.toList) :
    r.Settles targets answer (String.ofList (Inlay.replaceAll f buffer.toList)) := by
  intro i hi
  obtain ⟨t, ht, hsites⟩ := h i hi
  refine ⟨t, ht, fun s hs => ?_⟩
  obtain ⟨hscan, hsi⟩ := List.mem_filter.1 hs
  obtain ⟨s', hs', hidentifier, hcode⟩ := mem_scan_replaceAll hf hscan
  rw [String.ofList_toList] at hs'
  rw [← hcode]
  apply hsites s' (List.mem_filter.2 ⟨hs', ?_⟩)
  rw [hidentifier]
  exact hsi

/-- The expansion replaced the call-sites that the target has in `buffer`, whatever buffer it was made of. -/
def ReplacesSitesOf (answer : String → String → String) (buffer target : String) (x : Expansion) : Prop :=
  x.replacements.map (·.source) = (sitesOf target buffer).map (·.text) ∧
    x.replacements.map (·.transpiled) = (sitesOf target buffer).map fun s => answer target s.code

theorem map_text_sitesOf (target buffer : String) : (sitesOf target buffer).map (·.text) =
    ((sitesOf target buffer).map (·.code)).map fun code => target.push tick ++ code.push tick := by
  rw [List.map_map]
  apply List.map_congr_left
  intro s hs
  have hsi : s.identifier = target := by simpa using (List.mem_filter.1 hs).2
  rw [CallSite.text, hsi]
  rfl

theorem ReplacesSitesOf.congr {before : String} {x : Expansion} (h : ReplacesSitesOf answer before target x)
    (hcode : (sitesOf target before).map (·.code) = (sitesOf target buffer).map (·.code)) :
    ReplacesSitesOf answer buffer target x := by
  have hanswer (b : String) : (sitesOf target b).map (fun s => answer target s.code) =
      ((sitesOf target b).map (·.code)).map (answer target) := by
    rw [List.map_map]
    rfl
  obtain ⟨hsource, htranspiled⟩ := h
  constructor
  · rw [hsource, map_text_sitesOf, map_text_sitesOf, hcode]
  · rw [htranspiled, hanswer, hanswer, hcode]

theorem run_ask {t : Transpiler} (hsites : ∀ s ∈ sitesOf target buffer, t.Gives s.code (answer target s.code))
    {p : Piece} (hp : p ∈ pieces buffer.toList) (d : Disk) :
    ((Expansion.ask t target.toList p).run d).1 = .ok (Part.ofPiece (.among [target] answer) p) := by
  cases p with
  | plain s => rfl
  | call w code =>
      by_cases hw : w = target.toList
      · subst hw
        obtain ⟨s, hs, hsw, hscode⟩ := mem_sitesFrom_iff.2 hp
        rw [String.ofList_toList] at hsw
        have hgives := hsites s (List.mem_filter.2 ⟨hs, by simpa using hsw⟩) d
        rw [hscode] at hgives
        rw [Expansion.ask, if_pos rfl, run_bind_of_ok (Prod.ext hgives rfl), Part.ofPiece, Piece.answer?,
          Choice.among, if_pos (by simp), String.ofList_toList]
        rfl
      · have hne : String.ofList w ∉ [target] := by
          rintro h
          apply hw
          rw [← List.mem_singleton.1 h, String.toList_ofList]
        rw [Expansion.ask, if_neg hw, Part.ofPiece, Piece.answer?, Choice.among, if_neg hne]
        rfl

theorem records_among (target : String) (answer : String → String → String) (buffer : String) :
    Expansion.records 0 ((pieces buffer.toList).map (Part.ofPiece (.among [target] answer))) =
      (sitesOf target buffer).map fun s => s.replacedBy (answer target s.code) := by
  rw [records_ofPiece, sitesOf, ← List.filterMap_eq_map, List.filterMap_filter]
  apply List.filterMap_congr
  intro s hs
  by_cases hsi : s.identifier = target <;> simp [Choice.among, hsi]

theorem Settles.exists_run_expand (h : r.Settles targets answer buffer) (hi : target ∈ targets) (d : Disk) :
    ∃ x d', (r.expand buffer target).run d = (.ok x, d') ∧
      x.content = String.ofList (Inlay.replaceAll (.among [target] answer) buffer.toList) ∧
      ReplacesSitesOf answer buffer target x := by
  obtain ⟨t, ht, hsites⟩ := h target hi
  have hgives : ∀ s ∈ sitesOf target buffer, t.Gives s.code (answer target s.code) := fun s hs => (hsites s hs).1
  obtain ⟨d', hrun⟩ := exists_run_mapM (fun p hp => run_ask hgives hp) d
  refine ⟨_, d', by rw [run_expand ht, hrun], ?_, ?_, ?_⟩
  · rw [List.flatMap_map]
    rfl
  · rw [records_among, List.map_map]
    rfl
  · rw [records_among, List.map_map]
    rfl

theorem Settles.exists_run_expandInTurn (h : r.Settles targets answer buffer) (hdistinct : targets.Nodup) (d : Disk) :
    ∃ xs d', (r.expandInTurn buffer targets).run d = (.ok xs, d') ∧
      Expansion.lastContent buffer xs = String.ofList (Inlay.replaceAll (.among targets answer) buffer.toList) ∧
      List.Forall₂ (ReplacesSitesOf answer buffer) targets xs := by
  induction targets generalizing buffer d with
  | nil =>
      refine ⟨[], d, rfl, ?_, .nil⟩
      rw [replaceAll_of_plain (fun p _ => by cases p <;> simp [Piece.answer?, Choice.among]), String.ofList_toList]
      rfl
  | cons target targets ih =>
      obtain ⟨hnew, hdistinct⟩ := List.nodup_cons.1 hdistinct
      have hhead : r.Settles [target] answer buffer := fun i hi => h i (by simp [List.mem_singleton.1 hi])
      have htail : r.Settles targets answer buffer := fun i hi => h i (List.mem_cons_of_mem _ hi)
      have hinert := hhead.isInertOn
      obtain ⟨x, d₁, hx, hcontent, hreplaced⟩ := h.exists_run_expand List.mem_cons_self d
      have hsettles := htail.replaceAll hinert
      rw [← hcontent] at hsettles
      obtain ⟨xs, d₂, hxs, hlast, hsites⟩ := ih hsettles hdistinct d₁
      have hkept : ∀ i ∈ targets, (sitesOf i x.content).map (·.code) = (sitesOf i buffer).map (·.code) := by
        intro i hi
        have hne : i ∉ [target] := fun h => hnew (List.mem_singleton.1 h ▸ hi)
        have hother : ∀ code, (Choice.among [target] answer) i code = none := fun code => if_neg hne
        have hcodes := map_code_sitesOf_replaceAll hinert hother
        rwa [String.ofList_toList, ← hcontent] at hcodes
      refine ⟨x :: xs, d₂, ?_, ?_, .cons hreplaced ?_⟩
      · rw [expandInTurn, run_bind_of_ok hx, run_bind_of_ok hxs]
        rfl
      · rw [Expansion.lastContent, hlast, hcontent, String.toList_ofList, replaceAll_replaceAll hinert,
          ← Choice.among_cons]
      · exact ((List.forall₂_and_left _ _).2 ⟨hkept, hsites⟩).imp fun i x hx => hx.2.congr hx.1

end Registry

/-- Expansions for different identifiers give the same content in every order: the buffer with all of
their call-sites replaced at once. Each replaces the call-sites that its target has in the buffer. -/
theorem expansions_commute {r : Registry} {targets : List String} {answer : String → String → String}
    {buffer : String} (hdistinct : targets.Nodup) (h : r.Settles targets answer buffer) :
    ∃ content, IsSplice buffer (((scan buffer).filter (·.identifier ∈ targets)).map fun s =>
        s.replacedBy (answer s.identifier s.code)) content ∧
      ∀ order, order.Perm targets → ∀ d, ∃ xs d', (r.expandInTurn buffer order).run d = (.ok xs, d') ∧
        Expansion.lastContent buffer xs = content ∧
        List.Forall₂ (Registry.ReplacesSitesOf answer buffer) order xs := by
  refine ⟨String.ofList (replaceAll (.among targets answer) buffer.toList), ?_, ?_⟩
  · have hsites : ((scan buffer).filter (·.identifier ∈ targets)).map
        (fun s => s.replacedBy (answer s.identifier s.code)) =
        (scan buffer).filterMap fun s => ((Choice.among targets answer) s.identifier s.code).map s.replacedBy := by
      rw [← List.filterMap_eq_map, List.filterMap_filter]
      apply List.filterMap_congr
      intro s _
      by_cases hs : s.identifier ∈ targets <;> simp [Choice.among, hs]
    rw [hsites]
    exact isSplice_replaceAll _ buffer
  · intro order hperm d
    have horder : r.Settles order answer buffer := fun i hi => h i (hperm.mem_iff.1 hi)
    obtain ⟨xs, d', hrun, hlast, hreplaced⟩ := horder.exists_run_expandInTurn (hperm.nodup_iff.2 hdistinct) d
    rw [Choice.among_perm hperm] at hlast
    exact ⟨xs, d', hrun, hlast, hreplaced⟩

/-- Puts the code bodies of one identifier in brackets, and drops the call-sites of another. -/
def Registry.bracketsAndDrops : Registry :=
  ⟨(Table.empty.insert "md" (.ofTemplate "[{code}]" .none)).insert "b" (.ofTemplate "" .none)⟩

theorem commute_brackets :
    let answer := fun w code => if w = "md" then "[" ++ code ++ "]" else ""
    let buffer := "é md`1`b`2`c`3`md`4`"
    ["md", "b"].Nodup ∧ Registry.bracketsAndDrops.Settles ["md", "b"] answer buffer ∧
      ∀ order, order.Perm ["md", "b"] → ∀ d, ∃ xs d',
        (Registry.bracketsAndDrops.expandInTurn buffer order).run d = (.ok xs, d') ∧
          Expansion.lastContent buffer xs = "é [1]c`3`[4]" := by
  intro answer buffer
  have hdistinct : ["md", "b"].Nodup := by decide
  have hmd : sitesOf "md" buffer = [⟨"md", "1", 3, 8⟩, ⟨"md", "4", 16, 21⟩] := by decide +kernel
  have hb : sitesOf "b" buffer = [⟨"b", "2", 8, 12⟩] := by decide +kernel
  have hsettles : Registry.bracketsAndDrops.Settles ["md", "b"] answer buffer := by
    intro i hi
    obtain rfl | rfl := List.mem_pair.1 hi
    · refine ⟨.ofTemplate "[{code}]" .none, rfl, fun s hs => ?_⟩
      rw [hmd] at hs
      obtain rfl | rfl := List.mem_pair.1 hs
      · exact ⟨fun d => congrArg Except.ok (by decide +kernel : Template.expand "[{code}]" .none "1" = "[1]"),
          (by decide : IsInert "[1]".toList)⟩
      · exact ⟨fun d => congrArg Except.ok (by decide +kernel : Template.expand "[{code}]" .none "4" = "[4]"),
          (by decide : IsInert "[4]".toList)⟩
    · refine ⟨.ofTemplate "" .none, rfl, fun s hs => ?_⟩
      rw [hb] at hs
      obtain rfl := List.mem_singleton.1 hs
      exact ⟨fun d => congrArg Except.ok (by decide +kernel : Template.expand "" .none "2" = ""), (by decide : IsInert "".toList)⟩
  obtain ⟨content, -, hruns⟩ := expansions_commute hdistinct hsettles
  have hfirst : Expansion.ofAnswers (Template.expand "[{code}]" .none) "md" buffer =
      ⟨"é [1]b`2`c`3`[4]", [⟨3, 8, "md`1`", "[1]"⟩, ⟨16, 21, "md`4`", "[4]"⟩]⟩ := by decide +kernel
  have hsecond : Expansion.ofAnswers (Template.expand "" .none) "b" "é [1]b`2`c`3`[4]" =
      ⟨"é [1]c`3`[4]", [⟨6, 10, "b`2`", ""⟩]⟩ := by decide +kernel
  have hrun : (Registry.bracketsAndDrops.expandInTurn buffer ["md", "b"]).run Disk.empty =
      (.ok [⟨"é [1]b`2`c`3`[4]", [⟨3, 8, "md`1`", "[1]"⟩, ⟨16, 21, "md`4`", "[4]"⟩]⟩,
        ⟨"é [1]c`3`[4]", [⟨6, 10, "b`2`", ""⟩]⟩], Disk.empty) := by
    have hmd := hfirst ▸ Registry.run_expand_ofTemplate (r := .bracketsAndDrops) (e := .none) rfl buffer .empty
    have hb := hsecond ▸ Registry.run_expand_ofTemplate (r := .bracketsAndDrops) (e := .none) rfl "é [1]b`2`c`3`[4]" .empty
    have hrest : (Registry.bracketsAndDrops.expandInTurn "é [1]b`2`c`3`[4]" ["b"]).run Disk.empty =
        (.ok [⟨"é [1]c`3`[4]", [⟨6, 10, "b`2`", ""⟩]⟩], Disk.empty) := run_bind_of_ok hb
    rw [Registry.expandInTurn, run_bind_of_ok hmd, run_bind_of_ok hrest]
    rfl
  have hcontent : content = "é [1]c`3`[4]" := by
    obtain ⟨xs, d', hxs, hlast, -⟩ := hruns ["md", "b"] (.refl _) Disk.empty
    rw [hrun] at hxs
    cases hxs
    exact hlast.symm
  refine ⟨hdistinct, hsettles, fun order hperm d => ?_⟩
  obtain ⟨xs, d', hxs, hlast, -⟩ := hruns order hperm d
  exact ⟨xs, d', hxs, hlast.trans hcontent⟩

end Inlay
