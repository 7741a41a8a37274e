import Inlay.Proofs.Scan
import Inlay.Proofs.Step
import Mathlib.Data.List.Forall2

namespace Inlay

/-- A piece of a text, and what takes its place where something does. -/
structure Part where
  piece : Piece
  answer : Option String

namespace Part

def source (p : Part) : List Char := p.piece.source

def result (p : Part) : List Char :=
  match p.answer with
  | some text => text.toList
  | none => p.source

end Part

def Piece.isCallOf (target : List Char) : Piece → Bool
  | .plain _ => false
  | .call identifier _ => identifier = target

def Replacement.span (r : Replacement) : Nat × Nat := (r.start, r.stop)

def CallSite.span (s : CallSite) : Nat × Nat := (s.start, s.stop)

def sitesOf (target buffer : String) : List CallSite := (scan buffer).filter (·.identifier = target)

namespace Expansion

def ask (t : Transpiler) (target : List Char) : Piece → Transpiling Part
  | .plain text => return ⟨.plain text, none⟩
  | .call identifier code =>
    if identifier = target then do
      let text ← t (String.ofList code)
      return ⟨.call identifier code, some text⟩
    else return ⟨.call identifier code, none⟩

/-- The records of the parts that were replaced; the first part starts at `offset`. -/
def records (offset : Nat) : List Part → List Replacement
  | [] => []
  | p :: ps =>
    let next := offset + byteLength p.source
    match p.answer with
    | some text => ⟨offset, next, String.ofList p.source, text⟩ :: records next ps
    | none => records next ps

theorem ofPieces_eq (t : Transpiler) (target : List Char) (offset : Nat) (ps : List Piece) :
    ofPieces t target offset ps = do
      let parts ← ps.mapM (ask t target)
      return (parts.flatMap Part.result, records offset parts) := by
  induction ps generalizing offset with
  | nil => simp [ofPieces, records]
  | cons p ps ih =>
      cases p with
      | plain text =>
          simp [ofPieces, ask, ih, records, Part.result, Part.source, Piece.source]
      | call identifier code =>
          by_cases h : identifier = target
          · simp [ofPieces, ask, ih, h, records, Part.result, Part.source]
          · simp [ofPieces, ask, ih, h, records, Part.result, Part.source]

/-- The transpiler is asked for the call-sites of the target in their order, and for nothing else. -/
theorem mapM_sitesFrom (t : Transpiler) (target : List Char) (offset : Nat) (ps : List Piece) :
    (((sitesFrom offset ps).filter (·.identifier = String.ofList target)).mapM fun s => t s.code) = do
      let parts ← ps.mapM (ask t target)
      return parts.filterMap Part.answer := by
  induction ps generalizing offset with
  | nil => simp [sitesFrom]
  | cons p ps ih =>
      cases p with
      | plain text => simp [sitesFrom, ask, ih]
      | call identifier code =>
          by_cases h : identifier = target
          · simp [sitesFrom, ask, ih, h]
          · simp [sitesFrom, ask, ih, h, String.ofList_inj]

/-- The part that comes of a piece has an answer if the piece is a call-site of the target. -/
def Answers (target : List Char) (p : Piece) (part : Part) : Prop :=
  part.piece = p ∧ part.answer.isSome = p.isCallOf target

theorem answers_of_ask {t : Transpiler} {target : List Char} {p : Piece} {d d' : Disk} {part : Part}
    (h : (ask t target p).run d = (.ok part, d')) : Answers target p part := by
  cases p with
  | plain text => cases h; exact ⟨rfl, rfl⟩
  | call identifier code =>
      by_cases hi : identifier = target
      · rw [ask, if_pos hi] at h
        obtain ⟨text, d₁, ht, h⟩ := of_run_bind_ok h
        cases h
        exact ⟨rfl, by simp [Piece.isCallOf, hi]⟩
      · rw [ask, if_neg hi] at h
        cases h
        exact ⟨rfl, by simp [Piece.isCallOf, hi]⟩

end Expansion

/-- Both offsets are in bounds and between characters, and `text` is what lies between them. -/
def IsSlice (buffer : String) (start stop : Nat) (text : String) : Prop :=
  ∃ before after, buffer = before ++ text ++ after ∧ before.utf8ByteSize = start ∧
    start + text.utf8ByteSize = stop

theorem isSlice_ofList (before text after : List Char) :
    IsSlice (String.ofList (before ++ text ++ after)) (byteLength before)
      (byteLength before + byteLength text) (String.ofList text) :=
  ⟨String.ofList before, String.ofList after, by simp only [String.ofList_append],
    utf8ByteSize_ofList before, by rw [utf8ByteSize_ofList]⟩

/-- The offsets between which nothing is replaced, from `cursor` up to the end of the buffer. -/
def gapBounds (finish cursor : Nat) : List Replacement → List (Nat × Nat)
  | [] => [(cursor, finish)]
  | r :: rs => (cursor, r.start) :: gapBounds finish r.stop rs

/-- The texts, each followed by its gap, after a first gap. -/
def weave (lead : String) : List String → List String → String
  | text :: texts, gap :: gaps => lead ++ text ++ weave gap texts gaps
  | _, _ => lead

namespace Part

def lead : List Part → List Char
  | [] => []
  | p :: ps =>
    match p.answer with
    | some _ => []
    | none => p.source ++ lead ps

def gaps : List Part → List String
  | [] => []
  | p :: ps =>
    match p.answer with
    | some _ => String.ofList (lead ps) :: gaps ps
    | none => gaps ps

end Part

namespace Expansion

theorem weave_append (a b : String) (texts gaps : List String) :
    weave (a ++ b) texts gaps = a ++ weave b texts gaps := by
  cases texts with
  | nil => rfl
  | cons text texts =>
      cases gaps with
      | nil => rfl
      | cons gap gaps => simp only [weave, String.append_assoc]

theorem weave_transpiled (offset : Nat) (parts : List Part) :
    weave (String.ofList (Part.lead parts)) ((records offset parts).map (·.transpiled)) (Part.gaps parts) =
      String.ofList (parts.flatMap Part.result) := by
  induction parts generalizing offset with
  | nil => rfl
  | cons p ps ih =>
      cases h : p.answer with
      | some text => simp [Part.lead, Part.gaps, records, h, weave, ih, Part.result]
      | none => simp [Part.lead, Part.gaps, records, h, weave_append, ih, Part.result]

theorem weave_source (offset : Nat) (parts : List Part) :
    weave (String.ofList (Part.lead parts)) ((records offset parts).map (·.source)) (Part.gaps parts) =
      String.ofList (parts.flatMap Part.source) := by
  induction parts generalizing offset with
  | nil => rfl
  | cons p ps ih =>
      cases h : p.answer with
      | some text => simp [Part.lead, Part.gaps, records, h, weave, ih]
      | none => simp [Part.lead, Part.gaps, records, h, weave_append, ih]

theorem isSlice_of_mem_records (before : List Char) (parts : List Part) {r : Replacement}
    (hr : r ∈ records (byteLength before) parts) :
    IsSlice (String.ofList (before ++ parts.flatMap Part.source)) r.start r.stop r.source := by
  induction parts generalizing before with
  | nil => cases hr
  | cons p ps ih =>
      have hnext : byteLength before + byteLength p.source = byteLength (before ++ p.source) :=
        (byteLength_append before p.source).symm
      have hrest (hr : r ∈ records (byteLength (before ++ p.source)) ps) :
          IsSlice (String.ofList (before ++ (p :: ps).flatMap Part.source)) r.start r.stop r.source := by
        simpa [List.append_assoc] using ih (before ++ p.source) hr
      cases h : p.answer with
      | none =>
          simp only [records, h, hnext] at hr
          exact hrest hr
      | some text =>
          simp only [records, h, List.mem_cons] at hr
          rcases hr with rfl | hr
          · simpa using isSlice_ofList before p.source (ps.flatMap Part.source)
          · exact hrest (hnext ▸ hr)

theorem isSlice_gaps (before run : List Char) (parts : List Part) :
    List.Forall₂ (fun b gap => IsSlice (String.ofList (before ++ run ++ parts.flatMap Part.source)) b.1 b.2 gap)
      (gapBounds (byteLength (before ++ run ++ parts.flatMap Part.source)) (byteLength before)
        (records (byteLength (before ++ run)) parts))
      (String.ofList (run ++ Part.lead parts) :: Part.gaps parts) := by
  induction parts generalizing before run with
  | nil =>
      have h := isSlice_ofList before run []
      simp only [List.append_nil] at h
      refine .cons ?_ .nil
      simpa [Part.lead, byteLength_append] using h
  | cons p ps ih =>
      cases h : p.answer with
      | none =>
          have := ih before (run ++ p.source)
          simpa [Part.lead, Part.gaps, records, h, byteLength_append, List.append_assoc,
            Nat.add_assoc] using this
      | some text =>
          have hgap := isSlice_ofList before run (p.source ++ ps.flatMap Part.source)
          have hrest := ih (before ++ run ++ p.source) []
          simp only [records, h, gapBounds, Part.lead, Part.gaps]
          refine .cons ?_ ?_
          · simpa [byteLength_append, List.append_assoc] using hgap
          · simpa [byteLength_append, List.append_assoc, Nat.add_assoc] using hrest

theorem map_transpiled_records (offset : Nat) (parts : List Part) :
    (records offset parts).map (·.transpiled) = parts.filterMap Part.answer := by
  induction parts generalizing offset with
  | nil => rfl
  | cons p ps ih => cases h : p.answer <;> simp [records, h, ih]

theorem flatMap_source {target : List Char} {ps : List Piece} {parts : List Part}
    (h : List.Forall₂ (Answers target) ps parts) : parts.flatMap Part.source = ps.flatMap Piece.source := by
  induction h with
  | nil => rfl
  | cons hp _ ih => rw [List.flatMap_cons, List.flatMap_cons, ih, Part.source, hp.1]

theorem map_span_records {target : List Char} {ps : List Piece} {parts : List Part}
    (h : List.Forall₂ (Answers target) ps parts) (offset : Nat) :
    (records offset parts).map Replacement.span =
      ((sitesFrom offset ps).filter (·.identifier = String.ofList target)).map CallSite.span := by
  induction h generalizing offset with
  | nil => rfl
  | @cons p part ps parts hp _ ih =>
      have hsource : part.source = p.source := by rw [Part.source, hp.1]
      have hanswer := hp.2
      cases p with
      | plain text =>
          have hnone : part.answer = none := by simpa [Piece.isCallOf] using hanswer
          simp only [records, hnone, sitesFrom, hsource, ih]
      | call identifier code =>
          by_cases hi : identifier = target
          · obtain ⟨text, htext⟩ : ∃ text, part.answer = some text := by
              simpa [Piece.isCallOf, hi, Option.isSome_iff_exists] using hanswer
            simp [records, htext, sitesFrom, hsource, ih, hi, Replacement.span, CallSite.span]
          · have hnone : part.answer = none := by simpa [Piece.isCallOf, hi] using hanswer
            simp [records, hnone, sitesFrom, hsource, ih, hi, String.ofList_inj]

end Expansion

namespace Registry

theorem run_expand_of_error {r : Registry} {target : String} {e : Error} (h : r.resolve target = .error e)
    (buffer : String) (d : Disk) : (r.expand buffer target).run d = (.error e, d) :=
  run_bind_of_error (by rw [run_ofExcept, h])

/-- An expansion is what becomes of the parts of the buffer, or the transpiler's first failure. -/
theorem run_expand {r : Registry} {target : String} {t : Transpiler} (ht : r.resolve target = .ok t)
    (buffer : String) (d : Disk) :
    (r.expand buffer target).run d =
      match ((pieces buffer.toList).mapM (Expansion.ask t target.toList)).run d with
      | (.ok parts, d') =>
        (.ok ⟨String.ofList (parts.flatMap Part.result), Expansion.records 0 parts⟩, d')
      | (.error reason, d') => (.error (.transpileFailure target reason), d') := by
  have hresolve : (MonadExcept.ofExcept (r.resolve target) : ExceptT Error (StateM Disk) Transpiler).run d =
      (.ok t, d) := by rw [run_ofExcept, ht]
  obtain ⟨result, d', hparts⟩ : ∃ result d', ((pieces buffer.toList).mapM
      (Expansion.ask t target.toList)).run d = (result, d') := ⟨_, _, rfl⟩
  rw [expand, run_bind_of_ok hresolve, Expansion.ofPieces_eq, hparts]
  cases result with
  | error reason => exact run_bind_of_error (by rw [run_adapt, run_bind_of_error hparts]; rfl)
  | ok parts =>
      have hpieces : ((pieces buffer.toList).mapM (Expansion.ask t target.toList) >>= fun parts =>
          pure (parts.flatMap Part.result, Expansion.records 0 parts) : Transpiling _).run d =
          (.ok (parts.flatMap Part.result, Expansion.records 0 parts), d') := run_bind_of_ok hparts
      exact run_bind_of_ok (run_adapt_eq_ok.2 hpieces)

theorem parts_of_expand {r : Registry} {buffer target : String} {d d' : Disk} {x : Expansion}
    (h : (r.expand buffer target).run d = (.ok x, d')) :
    ∃ t parts, r.resolve target = .ok t ∧
      ((pieces buffer.toList).mapM (Expansion.ask t target.toList)).run d = (.ok parts, d') ∧
      x = ⟨String.ofList (parts.flatMap Part.result), Expansion.records 0 parts⟩ := by
  cases ht : r.resolve target with
  | error e =>
      rw [run_expand_of_error ht] at h
      cases h
  | ok t =>
      rw [run_expand ht] at h
      split at h
      · next parts d₁ hparts =>
          cases h
          exact ⟨t, parts, rfl, hparts, rfl⟩
      · cases h

theorem run_expand_of_no_site {r : Registry} {buffer target : String} {t : Transpiler}
    (ht : r.resolve target = .ok t) (hsites : sitesOf target buffer = []) (d : Disk) :
    (r.expand buffer target).run d = (.ok ⟨buffer, []⟩, d) := by
  have hask := Expansion.mapM_sitesFrom t target.toList 0 (pieces buffer.toList)
  rw [String.ofList_toList] at hask
  change (sitesOf target buffer).mapM _ = _ at hask
  rw [hsites, List.mapM_nil] at hask
  have hrun : ((pieces buffer.toList).mapM (Expansion.ask t target.toList) >>= fun parts =>
      pure (parts.filterMap Part.answer) : Transpiling (List String)).run d = (.ok [], d) := by
    rw [← hask]
    rfl
  obtain ⟨parts, d₁, hparts, h⟩ := of_run_bind_ok hrun
  obtain ⟨hanswers, rfl⟩ := Prod.mk.inj h
  have hnone : ∀ p ∈ parts, p.answer = none := List.filterMap_eq_nil_iff.1 (Except.ok.inj hanswers)
  have hrecords : Expansion.records 0 parts = [] := by
    have := Expansion.map_transpiled_records 0 parts
    rwa [List.filterMap_eq_nil_iff.2 hnone, List.map_eq_nil_iff] at this
  have hresult : parts.flatMap Part.result = parts.flatMap Part.source :=
    List.flatMap_congr fun p hp => by rw [Part.result, hnone p hp]
  have hsource := Expansion.flatMap_source (forall₂_of_mapM (fun _ _ _ _ => Expansion.answers_of_ask) hparts)
  rw [run_expand ht, hparts]
  dsimp only
  rw [hrecords, hresult, hsource, source_pieces, String.ofList_toList]

end Registry

def Part.answered (answer : String → String) (target : List Char) : Piece → Part
  | .plain text => ⟨.plain text, none⟩
  | .call identifier code =>
    ⟨.call identifier code, if identifier = target then some (answer (String.ofList code)) else none⟩

def Expansion.ofAnswers (answer : String → String) (target buffer : String) : Expansion :=
  let parts := (pieces buffer.toList).map (Part.answered answer target.toList)
  ⟨String.ofList (parts.flatMap Part.result), records 0 parts⟩

theorem Registry.run_expand_ofTemplate {r : Registry} {target template : String} {e : Escape}
    (ht : r.resolve target = .ok (.ofTemplate template e)) (buffer : String) (d : Disk) :
    (r.expand buffer target).run d = (.ok (.ofAnswers (Template.expand template e) target buffer), d) := by
  have hask (p : Piece) (d : Disk) : (Expansion.ask (.ofTemplate template e) target.toList p).run d =
      (.ok (Part.answered (Template.expand template e) target.toList p), d) := by
    cases p with
    | plain text => rfl
    | call identifier code =>
        by_cases h : identifier = target.toList
        · rw [Expansion.ask, if_pos h, Part.answered, if_pos h]
          rfl
        · rw [Expansion.ask, if_neg h, Part.answered, if_neg h]
          rfl
  rw [run_expand ht, run_mapM_of_forall hask]
  rfl

/-- The expansion replaces the call-sites of the target, one record for each and in their order, by
what the transpiler makes of their codes. Around them buffer and content have the same gaps. -/
theorem expand_replaces_sites {r : Registry} {buffer target : String} {d d' : Disk} {x : Expansion}
    (h : (r.expand buffer target).run d = (.ok x, d')) :
    ∃ t lead gaps, r.resolve target = .ok t ∧
      x.replacements.map Replacement.span = (sitesOf target buffer).map CallSite.span ∧
      ((sitesOf target buffer).mapM fun s => t s.code).run d =
        (.ok (x.replacements.map (·.transpiled)), d') ∧
      (∀ p ∈ x.replacements, IsSlice buffer p.start p.stop p.source) ∧
      List.Forall₂ (fun b gap => IsSlice buffer b.1 b.2 gap)
        (gapBounds buffer.utf8ByteSize 0 x.replacements) (lead :: gaps) ∧
      buffer = weave lead (x.replacements.map (·.source)) gaps ∧
      x.content = weave lead (x.replacements.map (·.transpiled)) gaps ∧
      (x.changed = false ↔ sitesOf target buffer = []) ∧ (x.changed = false → x.content = buffer) := by
  obtain ⟨t, parts, ht, hrun, rfl⟩ := Registry.parts_of_expand h
  have hparts := forall₂_of_mapM (fun _ _ _ _ => Expansion.answers_of_ask) hrun
  have hsource : parts.flatMap Part.source = buffer.toList :=
    (Expansion.flatMap_source hparts).trans (source_pieces buffer.toList)
  have hbuffer : String.ofList (parts.flatMap Part.source) = buffer := by
    rw [hsource, String.ofList_toList]
  have hsize : byteLength (parts.flatMap Part.source) = buffer.utf8ByteSize := by
    rw [← utf8ByteSize_ofList, hbuffer]
  have hspan := Expansion.map_span_records hparts 0
  rw [String.ofList_toList] at hspan
  have hgaps := Expansion.isSlice_gaps [] [] parts
  simp only [List.nil_append, hbuffer, hsize] at hgaps
  have hweave := Expansion.weave_source 0 parts
  rw [hbuffer] at hweave
  have hchanged : Expansion.records 0 parts = [] ↔ sitesOf target buffer = [] := by
    rw [← List.map_eq_nil_iff (f := Replacement.span), hspan, List.map_eq_nil_iff]
    rfl
  refine ⟨t, String.ofList (Part.lead parts), Part.gaps parts, ht, hspan, ?_, ?_, hgaps, hweave.symm,
    (Expansion.weave_transpiled 0 parts).symm, ?_, ?_⟩
  · have hask := Expansion.mapM_sitesFrom t target.toList 0 (pieces buffer.toList)
    rw [String.ofList_toList] at hask
    rw [sitesOf, scan, hask, run_bind_of_ok hrun, Expansion.map_transpiled_records]
    rfl
  · intro p hp
    have := Expansion.isSlice_of_mem_records [] parts hp
    rwa [List.nil_append, hbuffer] at this
  · rw [← hchanged]
    simp [Expansion.changed]
  · intro hc
    have hnil : Expansion.records 0 parts = [] := by simpa [Expansion.changed] using hc
    have htranspiled := Expansion.weave_transpiled 0 parts
    rw [hnil] at htranspiled hweave
    exact htranspiled.symm.trans hweave

def Registry.brackets : Registry := ⟨Table.empty.insert "md" (.ofTemplate "[{code}]" .none)⟩

theorem expand_brackets :
    (Registry.brackets.expand "é md`1` b`2`md`3`" "md").run Disk.empty =
        (.ok ⟨"é [1] b`2`[3]", [⟨3, 8, "md`1`", "[1]"⟩, ⟨13, 18, "md`3`", "[3]"⟩]⟩, Disk.empty) ∧
      (sitesOf "md" "é md`1` b`2`md`3`").map CallSite.span = [(3, 8), (13, 18)] ∧
      ∃ lead gaps, "é md`1` b`2`md`3`" = weave lead ["md`1`", "md`3`"] gaps ∧
        "é [1] b`2`[3]" = weave lead ["[1]", "[3]"] gaps := by
  have h : (Registry.brackets.expand "é md`1` b`2`md`3`" "md").run Disk.empty =
      (.ok ⟨"é [1] b`2`[3]", [⟨3, 8, "md`1`", "[1]"⟩, ⟨13, 18, "md`3`", "[3]"⟩]⟩, Disk.empty) := by
    have hanswers : Expansion.ofAnswers (Template.expand "[{code}]" .none) "md" "é md`1` b`2`md`3`" =
        ⟨"é [1] b`2`[3]", [⟨3, 8, "md`1`", "[1]"⟩, ⟨13, 18, "md`3`", "[3]"⟩]⟩ := by decide +kernel
    rw [Registry.run_expand_ofTemplate rfl, hanswers]
  obtain ⟨t, lead, gaps, -, hspan, -, -, -, hsource, hcontent, -⟩ := expand_replaces_sites h
  exact ⟨h, hspan.symm, lead, gaps, hsource, hcontent⟩

end Inlay
