import Inlay.Proofs.Substitution
import Mathlib.Algebra.Ring.Int.Defs

namespace Inlay

namespace Part

/-- The call-sites that an expansion leaves, where they are after it. -/
def keptSites (offset : Nat) : List Part → List CallSite
  | [] => []
  | p :: ps =>
    let next := offset + byteLength p.result
    match p with
    | ⟨.call identifier code, none⟩ =>
      ⟨String.ofList identifier, String.ofList code, offset, next⟩ :: keptSites next ps
    | _ => keptSites next ps

end Part

namespace Expansion

theorem Answers.eq_of_plain {target text : List Char} {part : Part} (h : Answers target (.plain text) part) :
    part = ⟨.plain text, none⟩ := by
  obtain ⟨piece, answer⟩ := part
  obtain ⟨rfl, ha⟩ := h
  cases answer with
  | none => rfl
  | some t => cases ha

theorem Answers.eq_of_call {target w code : List Char} {part : Part} (h : Answers target (.call w code) part) :
    (w ≠ target ∧ part = ⟨.call w code, none⟩) ∨ (w = target ∧ ∃ t, part = ⟨.call w code, some t⟩) := by
  obtain ⟨piece, answer⟩ := part
  obtain ⟨rfl, ha⟩ := h
  cases answer with
  | none => exact .inl ⟨by simpa [Piece.isCallOf] using ha, rfl⟩
  | some t => exact .inr ⟨by simpa [Piece.isCallOf] using ha, t, rfl⟩

theorem head_result {target rest : List Char} {parts : List Part}
    (h : List.Forall₂ (Answers target) (pieces rest) parts)
    (hrest : ∀ c ∈ rest.head?, isIdentifierChar c = false ∧ isTick c = false) :
    ∀ c ∈ (parts.flatMap Part.result).head?, isIdentifierChar c = false ∧ isTick c = false := by
  cases rest with
  | nil =>
      rw [pieces] at h
      cases h
      intro c hc
      cases hc
  | cons t tail =>
      rw [pieces_cons (hrest t rfl).1] at h
      cases h with
      | cons ht _ =>
          rw [ht.eq_of_plain]
          exact hrest

theorem sitesAt_result {target text : List Char} {parts : List Part}
    (h : List.Forall₂ (Answers target) (pieces text) parts)
    (hinert : ∀ p ∈ parts, ∀ t ∈ p.answer, IsInert t.toList) (offset : Nat) :
    sitesAt offset (parts.flatMap Part.result) = Part.keptSites offset parts := by
  induction text using text_induction generalizing parts offset with
  | nil =>
      rw [pieces] at h
      cases h
      exact sitesAt_nil offset
  | other c cs hc ih =>
      rw [pieces_cons hc] at h
      cases h with
      | cons hp h =>
          obtain rfl := hp.eq_of_plain
          have := ih h (fun p hp => hinert p (List.mem_cons_of_mem _ hp)) (offset + c.utf8Size)
          simpa [Part.keptSites, Part.result, Part.source, Piece.source, sitesAt_cons hc, byteLength] using this
  | word w rest hw hrest ih =>
      rw [pieces_word_append hw hrest] at h
      cases h with
      | cons hp h =>
          obtain rfl := hp.eq_of_plain
          have := ih h (fun p hp => hinert p (List.mem_cons_of_mem _ hp)) (offset + byteLength w)
          simpa [Part.keptSites, Part.result, Part.source, Piece.source,
            sitesAt_word_append hw (head_result h hrest)] using this
  | call w code rest hw hcode ih =>
      rw [pieces_call_append hw hcode] at h
      cases h with
      | @cons _ p _ parts hp h =>
          have ih := ih h fun p hp => hinert p (List.mem_cons_of_mem _ hp)
          obtain ⟨-, rfl⟩ | ⟨-, t, rfl⟩ := hp.eq_of_call
          · have := sitesAt_call_append hw hcode offset (parts.flatMap Part.result)
            simpa [Part.keptSites, Part.result, Part.source, Piece.source, ih] using this
          · have ht : IsInert t.toList := hinert _ List.mem_cons_self t rfl
            simp [Part.keptSites, Part.result, sitesAt_append_of_isInert ht, ih]
  | unclosed w body hw hbody =>
      rw [pieces_unclosed hw hbody] at h
      cases h with
      | cons hp h =>
          obtain rfl := hp.eq_of_plain
          cases h
          simp [Part.keptSites, Part.result, Part.source, Piece.source, sitesAt_unclosed hw hbody]

/-- By how many bytes the text at `offset` moves: what the replacements before it add up to. -/
def drift (rs : List Replacement) (offset : Nat) : Int :=
  ((rs.filter (·.stop ≤ offset)).map fun r =>
    (r.transpiled.utf8ByteSize : Int) - r.source.utf8ByteSize).sum

theorem drift_cons_of_le {r : Replacement} {offset : Nat} (h : r.stop ≤ offset) (rs : List Replacement) :
    drift (r :: rs) offset =
      (r.transpiled.utf8ByteSize : Int) - r.source.utf8ByteSize + drift rs offset := by
  simp [drift, h]

theorem drift_of_lt {rs : List Replacement} {offset : Nat} (h : ∀ r ∈ rs, offset < r.stop) :
    drift rs offset = 0 := by
  have hnil : rs.filter (·.stop ≤ offset) = [] :=
    List.filter_eq_nil_iff.2 fun r hr => by simpa using h r hr
  rw [drift, hnil]
  rfl

theorem le_stop_of_mem_records {offset : Nat} {parts : List Part} {r : Replacement}
    (h : r ∈ records offset parts) : offset ≤ r.stop := by
  induction parts generalizing offset with
  | nil => cases h
  | cons p ps ih =>
      cases hp : p.answer with
      | none =>
          simp only [records, hp] at h
          exact (Nat.le_add_right _ _).trans (ih h)
      | some t =>
          simp only [records, hp, List.mem_cons] at h
          rcases h with rfl | h
          · exact Nat.le_add_right _ _
          · exact (Nat.le_add_right _ _).trans (ih h)

theorem le_start_of_mem_sitesFrom {offset : Nat} {ps : List Piece} {s : CallSite}
    (h : s ∈ sitesFrom offset ps) : offset ≤ s.start := by
  induction ps generalizing offset with
  | nil => cases h
  | cons p ps ih =>
      cases p with
      | plain text => exact (Nat.le_add_right _ _).trans (ih h)
      | call w code =>
          rcases List.mem_cons.1 h with rfl | h
          · exact le_rfl
          · exact (Nat.le_add_right _ _).trans (ih h)

theorem byteLength_call_pos (w code : List Char) : 0 < byteLength (Piece.call w code).source := by
  have := tick.utf8Size_pos
  simp only [Piece.source, byteLength_append, byteLength]
  omega

end Expansion

def CallSite.IsMoved (shift : Int) (s s' : CallSite) : Prop :=
  s'.identifier = s.identifier ∧ s'.code = s.code ∧ (s'.start : Int) = s.start + shift ∧
    (s'.stop : Int) = s.stop + shift

namespace Expansion

theorem keptSites_moved {target : List Char} {ps : List Piece} {parts : List Part}
    (h : List.Forall₂ (Answers target) ps parts) (offset offset' : Nat) :
    List.Forall₂ (fun s s' => s.IsMoved (offset' - offset + drift (records offset parts) s.start) s')
      ((sitesFrom offset ps).filter (·.identifier ≠ String.ofList target)) (Part.keptSites offset' parts) := by
  induction h generalizing offset offset' with
  | nil => exact .nil
  | @cons p part ps parts hp _ ih =>
      cases p with
      | plain text =>
          obtain rfl := hp.eq_of_plain
          have := ih (offset + byteLength text) (offset' + byteLength text)
          simpa [sitesFrom, Part.keptSites, records, Part.result, Part.source, Piece.source, Int.add_sub_add_right] using this
      | call w code =>
          obtain ⟨hne, rfl⟩ | ⟨rfl, t, rfl⟩ := hp.eq_of_call
          · have hpos := byteLength_call_pos w code
            have hne' : String.ofList w ≠ String.ofList target := fun h => hne (String.ofList_injective h)
            have hshift := ih (offset + byteLength (Piece.call w code).source)
              (offset' + byteLength (Piece.call w code).source)
            have hdrift : drift (records (offset + byteLength (Piece.call w code).source) parts) offset = 0 :=
              drift_of_lt fun r hr => by have := le_stop_of_mem_records hr; omega
            have hsame : ((offset' + byteLength (Piece.call w code).source : Nat) : Int) -
                (offset + byteLength (Piece.call w code).source : Nat) = offset' - offset := by omega
            simp only [hsame] at hshift
            simp only [sitesFrom, ne_eq, decide_not, List.filter_cons, hne', decide_false, Bool.not_false,
              if_true, Part.keptSites, records, Part.result, Part.source]
            refine .cons ⟨rfl, rfl, ?_, ?_⟩ (by simpa using hshift)
            · dsimp only
              omega
            · dsimp only
              omega
          · have hstart := fun s (hs : s ∈ (sitesFrom (offset + byteLength (Piece.call w code).source) ps).filter
                (·.identifier ≠ String.ofList w)) => le_start_of_mem_sitesFrom (List.mem_of_mem_filter hs)
            have hshift := (List.forall₂_and_left _ _).2 ⟨hstart, ih (offset + byteLength (Piece.call w code).source)
              (offset' + byteLength t.toList)⟩
            simp only [sitesFrom, ne_eq, decide_not, List.filter_cons, decide_true, Bool.not_true,
              Bool.false_eq_true, if_false, Part.keptSites, records, Part.result, Part.source] at hshift ⊢
            refine hshift.imp fun s s' h => ?_
            obtain ⟨hs, hmoved⟩ := h
            have hsource := utf8ByteSize_ofList (Piece.call w code).source
            have htext : t.utf8ByteSize = byteLength t.toList := by
              rw [← utf8ByteSize_ofList, String.ofList_toList]
            rw [drift_cons_of_le hs]
            convert hmoved using 1
            dsimp only
            omega

end Expansion

theorem forall_of_forall₂ {α β : Type} {p : α → β → Prop} {q : β → Prop} {as : List α} {bs : List β}
    (h : List.Forall₂ p as bs) (hq : ∀ a ∈ as, ∀ b, p a b → q b) : ∀ b ∈ bs, q b := by
  induction h with
  | nil => exact nofun
  | @cons a b as bs hab _ ih =>
      intro b' hb'
      rcases List.mem_cons.1 hb' with rfl | hb'
      · exact hq a List.mem_cons_self _ hab
      · exact ih (fun a ha => hq a (List.mem_cons_of_mem _ ha)) b' hb'

/-- If the transpiler's texts are inert, a scan of the content finds the call-sites of the buffer that
are not the target's, each moved by what was replaced before it, so expanding again changes nothing. -/
theorem scan_expansion {r : Registry} {buffer target : String} {d d' : Disk} {x : Expansion}
    (h : (r.expand buffer target).run d = (.ok x, d'))
    (hinert : ∀ p ∈ x.replacements, IsInert p.transpiled.toList) :
    List.Forall₂ (fun s s' => s.IsMoved (Expansion.drift x.replacements s.start) s')
        ((scan buffer).filter (·.identifier ≠ target)) (scan x.content) ∧
      ∀ e, ∃ y, (r.expand x.content target).run e = (.ok y, e) ∧ y.changed = false ∧
        y.content = x.content := by
  obtain ⟨t, parts, ht, hrun, rfl⟩ := Registry.parts_of_expand h
  have hparts := forall₂_of_mapM (fun _ _ _ _ => Expansion.answers_of_ask) hrun
  have hanswers : ∀ p ∈ parts, ∀ text ∈ p.answer, IsInert text.toList := by
    intro p hp text htext
    have hmem : text ∈ (Expansion.records 0 parts).map (·.transpiled) := by
      rw [Expansion.map_transpiled_records]
      exact List.mem_filterMap.2 ⟨p, hp, htext⟩
    obtain ⟨record, hrecord, rfl⟩ := List.mem_map.1 hmem
    exact hinert record hrecord
  have hscan : scan (String.ofList (parts.flatMap Part.result)) = Part.keptSites 0 parts := by
    rw [scan, String.toList_ofList]
    exact Expansion.sitesAt_result hparts hanswers 0
  have hmoved := Expansion.keptSites_moved hparts 0 0
  rw [String.ofList_toList, ← hscan] at hmoved
  have hkept : List.Forall₂ (fun s s' => s.IsMoved (Expansion.drift (Expansion.records 0 parts) s.start) s')
      ((scan buffer).filter (·.identifier ≠ target)) (scan (String.ofList (parts.flatMap Part.result))) := by
    simpa [scan] using hmoved
  have hother : ∀ s' ∈ scan (String.ofList (parts.flatMap Part.result)), s'.identifier ≠ target := by
    refine forall_of_forall₂ hkept fun s hs s' hmoved => ?_
    rw [hmoved.1]
    simpa using (List.mem_filter.1 hs).2
  have hnone : sitesOf target (String.ofList (parts.flatMap Part.result)) = [] :=
    List.filter_eq_nil_iff.2 fun s hs => by simpa using hother s hs
  exact ⟨hkept, fun e => ⟨_, Registry.run_expand_of_no_site ht hnone e, rfl, rfl⟩⟩

theorem scan_brackets :
    (Registry.brackets.expand "`md`1``md`2`b`3`" "md").run Disk.empty =
        (.ok ⟨"`[1]`[2]b`3`", [⟨1, 6, "md`1`", "[1]"⟩, ⟨7, 12, "md`2`", "[2]"⟩]⟩, Disk.empty) ∧
      (∀ p ∈ [(⟨1, 6, "md`1`", "[1]"⟩ : Replacement), ⟨7, 12, "md`2`", "[2]"⟩], IsInert p.transpiled.toList) ∧
      ∃ y, (Registry.brackets.expand "`[1]`[2]b`3`" "md").run Disk.empty = (.ok y, Disk.empty) ∧
        y.changed = false ∧ y.content = "`[1]`[2]b`3`" := by
  have h : (Registry.brackets.expand "`md`1``md`2`b`3`" "md").run Disk.empty =
      (.ok ⟨"`[1]`[2]b`3`", [⟨1, 6, "md`1`", "[1]"⟩, ⟨7, 12, "md`2`", "[2]"⟩]⟩, Disk.empty) := by
    have hanswers : Expansion.ofAnswers (Template.expand "[{code}]" .none) "md" "`md`1``md`2`b`3`" =
        ⟨"`[1]`[2]b`3`", [⟨1, 6, "md`1`", "[1]"⟩, ⟨7, 12, "md`2`", "[2]"⟩]⟩ := by decide +kernel
    rw [Registry.run_expand_ofTemplate rfl, hanswers]
  have hinert : ∀ p ∈ [(⟨1, 6, "md`1`", "[1]"⟩ : Replacement), ⟨7, 12, "md`2`", "[2]"⟩],
      IsInert p.transpiled.toList := by
    intro p hp
    rcases List.mem_pair.1 hp with rfl | rfl
    · decide
    · decide
  exact ⟨h, hinert, (scan_expansion h hinert).2 Disk.empty⟩

end Inlay
