import Inlay.Proofs.Substitution

namespace Inlay

/-- What lies between the offsets is the identifier, and the code between backticks. -/
structure CallSite.LiesIn (s : CallSite) (buffer : String) : Prop where
  slice : IsSlice buffer s.start s.stop s.text
  identifier : isIdentifier s.identifier = true
  code : ∀ c ∈ s.code.toList, isTick c = false

def endOf (cursor : Nat) : List CallSite → Nat
  | [] => cursor
  | s :: sites => endOf s.stop sites

/-- The sites lie in the buffer from `cursor` on, one after the other, and nothing that could be a site
is passed over on the way to the next. -/
structure IsLeftmost (buffer : String) (cursor : Nat) (sites : List CallSite) : Prop where
  liesIn : ∀ s ∈ sites, s.LiesIn buffer
  apart : ∀ before s after, sites = before ++ s :: after → endOf cursor before ≤ s.start
  next : ∀ before after, sites = before ++ after → ∀ t : CallSite, t.LiesIn buffer →
    endOf cursor before ≤ t.start → ∃ s ∈ after.head?, s.start ≤ t.start

def CallSite.ofParts (offset : Nat) (w code : List Char) : CallSite :=
  ⟨String.ofList w, String.ofList code, offset, offset + byteLength (Piece.call w code).source⟩

theorem byteLength_eq_zero {cs : List Char} : byteLength cs = 0 ↔ cs = [] := by
  cases cs with
  | nil => simp [byteLength]
  | cons c cs =>
      have := c.utf8Size_pos
      simp only [byteLength, reduceCtorEq, iff_false]
      omega

theorem exists_append_of_byteLength_le {as bs cs ds : List Char} (h : as ++ bs = cs ++ ds)
    (hle : byteLength as ≤ byteLength cs) : ∃ mid, cs = as ++ mid ∧ bs = mid ++ ds := by
  obtain ⟨mid, hcs, hbs⟩ | ⟨mid, has, hds⟩ := List.append_eq_append_iff.1 h
  · exact ⟨mid, hcs, hbs⟩
  · rw [has, byteLength_append] at hle
    obtain rfl : mid = [] := byteLength_eq_zero.1 (by omega)
    exact ⟨[], by simpa using has.symm, by simpa using hds.symm⟩

theorem eq_of_byteLength_eq {as bs cs ds : List Char} (h : as ++ bs = cs ++ ds)
    (heq : byteLength as = byteLength cs) : as = cs := by
  obtain ⟨mid, rfl, -⟩ := exists_append_of_byteLength_le h heq.le
  rw [byteLength_append] at heq
  obtain rfl : mid = [] := byteLength_eq_zero.1 (by omega)
  exact (List.append_nil as).symm

theorem eq_append_singleton {as bs cs ds : List Char} {c : Char} (h : as ++ bs = cs ++ c :: ds)
    (hlt : byteLength cs < byteLength as) (hle : byteLength as ≤ byteLength (cs ++ [c])) : as = cs ++ [c] := by
  obtain ⟨mid, rfl, hmid⟩ := exists_append_of_byteLength_le h.symm hlt.le
  cases mid with
  | nil => exact absurd hlt (by simp)
  | cons b mid =>
      obtain ⟨rfl, -⟩ := List.cons.inj hmid
      simp only [byteLength_append, byteLength] at hle
      obtain rfl : mid = [] := byteLength_eq_zero.1 (by omega)
      rfl

theorem isIdentifier_iff {s : String} : isIdentifier s = true ↔ IsWord s.toList := by
  simp [isIdentifier, IsWord]

namespace CallSite

variable {s t : CallSite} {text : List Char}

theorem liesIn_iff : s.LiesIn (String.ofList text) ↔
    ∃ before w code after, IsWord w ∧ (∀ c ∈ code, isTick c = false) ∧
      text = before ++ (w ++ tick :: (code ++ tick :: after)) ∧ s = ofParts (byteLength before) w code := by
  constructor
  · rintro ⟨⟨before, after, hbuffer, hstart, hstop⟩, hidentifier, hcode⟩
    have htext : s.text.toList = (Piece.call s.identifier.toList s.code.toList).source := by
      simp [CallSite.text, Piece.source]
    have hsize (a : String) : a.utf8ByteSize = byteLength a.toList := by
      rw [← utf8ByteSize_ofList, String.ofList_toList]
    refine ⟨before.toList, s.identifier.toList, s.code.toList, after.toList, isIdentifier_iff.1 hidentifier,
      hcode, ?_, ?_⟩
    · have := congrArg String.toList hbuffer
      simpa [htext, Piece.source] using this
    · rw [hsize] at hstart hstop
      rw [htext] at hstop
      cases s
      simp_all [ofParts]
  · rintro ⟨before, w, code, after, hw, hcode, rfl, rfl⟩
    refine ⟨?_, isIdentifier_iff.2 (by simpa [ofParts] using hw), by simpa [ofParts] using hcode⟩
    have := isSlice_ofList before (Piece.call w code).source after
    have htext : (ofParts (byteLength before) w code).text = String.ofList (Piece.call w code).source := by
      apply String.toList_injective
      simp [CallSite.text, ofParts, Piece.source]
    rw [htext]
    simpa [Piece.source, ofParts] using this

theorem LiesIn.start_lt_stop {buffer : String} (h : s.LiesIn buffer) : s.start < s.stop := by
  rw [← String.ofList_toList (s := buffer)] at h
  obtain ⟨before, w, code, -, -, -, -, rfl⟩ := liesIn_iff.1 h
  have := tick.utf8Size_pos
  simp only [ofParts, Piece.source, byteLength_append, byteLength]
  omega

theorem LiesIn.eq_of_start_eq {buffer : String} (hs : s.LiesIn buffer) (ht : t.LiesIn buffer)
    (h : s.start = t.start) : s = t := by
  rw [← String.ofList_toList (s := buffer)] at hs ht
  obtain ⟨before, w, code, after, hw, hcode, htext, rfl⟩ := liesIn_iff.1 hs
  obtain ⟨before', w', code', after', hw', hcode', htext', rfl⟩ := liesIn_iff.1 ht
  rw [htext] at htext'
  obtain rfl := eq_of_byteLength_eq htext' h
  have htail := List.append_cancel_left htext'
  have hpieces := congrArg pieces htail
  rw [pieces_call_append hw hcode, pieces_call_append hw' hcode'] at hpieces
  obtain ⟨rfl, rfl⟩ := Piece.call.inj (List.cons.inj hpieces).1
  rfl

theorem LiesIn.exists_earlier {before after : List Char} {c : Char}
    (h : s.LiesIn (String.ofList (before ++ c :: after))) (hstart : s.start = byteLength (before ++ [c]))
    (hc : isIdentifierChar c = true) :
    ∃ t : CallSite, t.LiesIn (String.ofList (before ++ c :: after)) ∧ t.start = byteLength before := by
  obtain ⟨before', w, code, after', hw, hcode, htext, rfl⟩ := liesIn_iff.1 h
  have htext' : before ++ [c] ++ after = before' ++ (w ++ tick :: (code ++ tick :: after')) := by
    rw [← htext]
    simp
  obtain rfl := eq_of_byteLength_eq htext' hstart.symm
  refine ⟨_, liesIn_iff.2 ⟨before, c :: w, code, after', ⟨List.cons_ne_nil _ _, ?_⟩, hcode, ?_, rfl⟩, rfl⟩
  · intro b hb
    obtain rfl | hb := List.mem_cons.1 hb
    · exact hc
    · exact hw.2 b hb
  · rw [htext]
    simp

end CallSite

namespace IsLeftmost

variable {buffer : String} {cursor cursor' : Nat} {s : CallSite} {sites sites' : List CallSite}

theorem nil_iff : IsLeftmost buffer cursor [] ↔ ∀ t : CallSite, t.LiesIn buffer → t.start < cursor := by
  constructor
  · intro h t ht
    by_contra hle
    obtain ⟨s, hs, -⟩ := h.next [] [] rfl t ht (not_lt.1 hle)
    cases hs
  · intro h
    refine ⟨nofun, fun before s after heq => by simp at heq, fun before after heq t ht hle => ?_⟩
    obtain ⟨rfl, -⟩ := List.append_eq_nil_iff.1 heq.symm
    exact absurd (h t ht) (not_lt.2 hle)

theorem cons_iff : IsLeftmost buffer cursor (s :: sites) ↔
    s.LiesIn buffer ∧ cursor ≤ s.start ∧
      (∀ t : CallSite, t.LiesIn buffer → cursor ≤ t.start → s.start ≤ t.start) ∧
      IsLeftmost buffer s.stop sites := by
  constructor
  · intro h
    refine ⟨h.liesIn s List.mem_cons_self, h.apart [] s sites rfl, fun t ht hle => ?_, ?_⟩
    · obtain ⟨s', hs', hstart⟩ := h.next [] (s :: sites) rfl t ht hle
      cases hs'
      exact hstart
    · refine ⟨fun s' hs' => h.liesIn s' (List.mem_cons_of_mem _ hs'), ?_, ?_⟩
      · rintro before s' after rfl
        exact h.apart (s :: before) s' after rfl
      · rintro before after rfl
        exact h.next (s :: before) after rfl
  · rintro ⟨hs, hle, hfirst, h⟩
    refine ⟨?_, ?_, ?_⟩
    · intro s' hs'
      obtain rfl | hs' := List.mem_cons.1 hs'
      · exact hs
      · exact h.liesIn s' hs'
    · intro before s' after heq
      cases before with
      | nil =>
          cases heq
          exact hle
      | cons s₀ before =>
          obtain ⟨rfl, rfl⟩ := List.cons.inj heq
          exact h.apart before s' after rfl
    · intro before after heq t ht hend
      cases before with
      | nil =>
          obtain rfl := heq
          exact ⟨s, rfl, hfirst t ht hend⟩
      | cons s₀ before =>
          obtain ⟨rfl, rfl⟩ := List.cons.inj heq
          exact h.next before after rfl t ht hend

theorem of_skip (h : IsLeftmost buffer cursor' sites) (hle : cursor ≤ cursor')
    (hskip : ∀ t : CallSite, t.LiesIn buffer → cursor ≤ t.start → cursor' ≤ t.start) :
    IsLeftmost buffer cursor sites := by
  cases sites with
  | nil =>
      rw [nil_iff] at h ⊢
      intro t ht
      by_contra hlt
      exact absurd (h t ht) (not_lt.2 (hskip t ht (not_lt.1 hlt)))
  | cons s sites =>
      obtain ⟨hs, hstart, hfirst, h⟩ := cons_iff.1 h
      exact cons_iff.2 ⟨hs, hle.trans hstart, fun t ht hlt => hfirst t ht (hskip t ht hlt), h⟩

end IsLeftmost

theorem IsLeftmost.unique {buffer : String} {cursor : Nat} {sites sites' : List CallSite}
    (h : IsLeftmost buffer cursor sites) (h' : IsLeftmost buffer cursor sites') : sites = sites' := by
  induction sites generalizing cursor sites' with
  | nil =>
      cases sites' with
      | nil => rfl
      | cons s' sites' =>
          obtain ⟨hs', hle, -, -⟩ := IsLeftmost.cons_iff.1 h'
          exact absurd (IsLeftmost.nil_iff.1 h s' hs') (not_lt.2 hle)
  | cons s sites ih =>
      obtain ⟨hs, hle, hfirst, hrest⟩ := IsLeftmost.cons_iff.1 h
      cases sites' with
      | nil => exact absurd (IsLeftmost.nil_iff.1 h' s hs) (not_lt.2 hle)
      | cons s' sites' =>
          obtain ⟨hs', hle', hfirst', hrest'⟩ := IsLeftmost.cons_iff.1 h'
          obtain rfl := hs.eq_of_start_eq hs' (le_antisymm (hfirst s' hs' hle') (hfirst' s hs hle))
          rw [ih hrest hrest']

theorem exists_of_liesIn_append {before text : List Char} {t : CallSite}
    (h : t.LiesIn (String.ofList (before ++ text))) (hle : byteLength before ≤ t.start) :
    ∃ skipped w code after, IsWord w ∧ (∀ c ∈ code, isTick c = false) ∧
      text = skipped ++ (w ++ tick :: (code ++ tick :: after)) ∧
      t.start = byteLength before + byteLength skipped := by
  obtain ⟨before', w, code, after, hw, hcode, htext, rfl⟩ := CallSite.liesIn_iff.1 h
  obtain ⟨skipped, rfl, rfl⟩ := exists_append_of_byteLength_le htext hle
  exact ⟨skipped, w, code, after, hw, hcode, rfl, byteLength_append before skipped⟩

theorem exists_append_of_word {w rest skipped v tail : List Char} (hw : IsWord w)
    (hrest : ∀ c ∈ rest.head?, isIdentifierChar c = false ∧ isTick c = false) (hv : IsWord v)
    (h : w ++ rest = skipped ++ (v ++ tick :: tail)) : ∃ more, skipped = w ++ more := by
  obtain ⟨mid, hskipped, -⟩ | ⟨mid, rfl, hmid⟩ := List.append_eq_append_iff.1 h
  · exact ⟨mid, hskipped⟩
  · obtain ⟨more, rfl, htail⟩ | ⟨more, rfl, rfl⟩ := List.append_eq_append_iff.1 hmid
    · cases more with
      | nil =>
          obtain rfl : tick :: tail = rest := htail
          cases (hrest tick rfl).2
      | cons c more =>
          obtain ⟨rfl, -⟩ := List.cons.inj htail
          have := hw.2 tick (by simp)
          rw [tick_not_identifierChar] at this
          cases this
    · cases more with
      | nil => cases (hrest tick rfl).2
      | cons c more =>
          have := hv.2 c (by simp)
          rw [(hrest c rfl).1] at this
          cases this

theorem IsWord.countP_isTick {w : List Char} (hw : IsWord w) : w.countP isTick = 0 := by
  refine List.countP_eq_zero.2 fun c hc h => ?_
  obtain rfl : c = tick := by simpa [isTick] using h
  have := hw.2 _ hc
  rw [tick_not_identifierChar] at this
  cases this

theorem isLeftmost_nil_of_unclosed (before : List Char) {w body : List Char} (hw : IsWord w)
    (hbody : ∀ c ∈ body, isTick c = false) :
    IsLeftmost (String.ofList (before ++ (w ++ tick :: body))) (byteLength before) [] := by
  rw [IsLeftmost.nil_iff]
  intro t ht
  by_contra hlt
  obtain ⟨skipped, v, code, after, hv, -, htext, -⟩ := exists_of_liesIn_append ht (not_lt.1 hlt)
  have hcount := congrArg (List.countP isTick) htext
  have hbody' : body.countP isTick = 0 := List.countP_eq_zero.2 fun c hc => by simp [hbody c hc]
  simp only [List.countP_append, List.countP_cons, isTick_tick, if_true, hw.countP_isTick, hbody'] at hcount
  omega

theorem isLeftmost_sitesAt (before text : List Char) :
    IsLeftmost (String.ofList (before ++ text)) (byteLength before) (sitesAt (byteLength before) text) := by
  induction text using text_induction generalizing before with
  | nil =>
      rw [sitesAt_nil, IsLeftmost.nil_iff]
      intro t ht
      by_contra hlt
      obtain ⟨skipped, w, code, after, hw, -, htext, -⟩ := exists_of_liesIn_append ht (not_lt.1 hlt)
      simp at htext
  | other c cs hc ih =>
      have h := ih (before ++ [c])
      simp only [List.append_assoc, List.singleton_append, byteLength_append, byteLength, Nat.add_zero] at h
      rw [sitesAt_cons hc]
      refine h.of_skip (Nat.le_add_right _ _) fun t ht hle => ?_
      obtain ⟨skipped, w, code, after, hw, -, htext, hstart⟩ := exists_of_liesIn_append ht hle
      cases skipped with
      | nil =>
          obtain ⟨c', w, rfl⟩ := List.exists_cons_of_ne_nil hw.1
          obtain ⟨rfl, -⟩ := List.cons.inj htext
          rw [hw.2 c List.mem_cons_self] at hc
          cases hc
      | cons c' skipped =>
          obtain ⟨rfl, -⟩ := List.cons.inj htext
          rw [hstart, byteLength]
          omega
  | word w rest hw hrest ih =>
      have h := ih (before ++ w)
      rw [List.append_assoc, byteLength_append] at h
      rw [sitesAt_word_append hw hrest]
      refine h.of_skip (Nat.le_add_right _ _) fun t ht hle => ?_
      obtain ⟨skipped, v, code, after, hv, -, htext, hstart⟩ := exists_of_liesIn_append ht hle
      obtain ⟨more, rfl⟩ := exists_append_of_word hw hrest hv htext
      rw [hstart, byteLength_append]
      omega
  | call w code rest hw hcode ih =>
      rw [sitesAt, pieces_call_append hw hcode, sitesFrom]
      refine IsLeftmost.cons_iff.2 ⟨?_, le_rfl, fun t _ hle => hle, ?_⟩
      · exact CallSite.liesIn_iff.2 ⟨before, w, code, rest, hw, hcode, rfl, rfl⟩
      · have h := ih (before ++ (Piece.call w code).source)
        rw [byteLength_append] at h
        simpa [sitesAt, Piece.source] using h
  | unclosed w body hw hbody =>
      rw [sitesAt_unclosed hw hbody]
      exact isLeftmost_nil_of_unclosed before hw hbody

theorem isLeftmost_scan (buffer : String) : IsLeftmost buffer 0 (scan buffer) := by
  have := isLeftmost_sitesAt [] buffer.toList
  rwa [List.nil_append, String.ofList_toList] at this

namespace IsLeftmost

variable {buffer : String} {cursor : Nat} {sites : List CallSite}

theorem exists_overlap (h : IsLeftmost buffer cursor sites) {t : CallSite} (ht : t.LiesIn buffer)
    (hle : cursor ≤ t.start) : ∃ s ∈ sites, s.start < t.stop ∧ t.start < s.stop := by
  induction sites generalizing cursor with
  | nil => exact absurd (nil_iff.1 h t ht) (not_lt.2 hle)
  | cons s sites ih =>
      obtain ⟨-, -, hfirst, hrest⟩ := cons_iff.1 h
      by_cases hstop : t.start < s.stop
      · exact ⟨s, List.mem_cons_self, (hfirst t ht hle).trans_lt ht.start_lt_stop, hstop⟩
      · obtain ⟨s', hs', hover⟩ := ih hrest (not_lt.1 hstop)
        exact ⟨s', List.mem_cons_of_mem _ hs', hover⟩

/-- No site goes on to the left: what it would start with before is no character of an identifier, or
the last character of what has been passed. -/
theorem not_isIdentifierChar_before {passed text before after : List Char} {c : Char} {s : CallSite}
    (h : IsLeftmost (String.ofList (passed ++ text)) (byteLength passed) sites)
    (hpassed : ∀ c ∈ passed.getLast?, isTick c = true) (hs : s ∈ sites)
    (htext : passed ++ text = before ++ c :: after) (hstart : s.start = byteLength (before ++ [c])) :
    isIdentifierChar c = false := by
  induction sites generalizing passed text with
  | nil => cases hs
  | cons s' sites ih =>
      obtain ⟨hs', hle, hfirst, hrest⟩ := cons_iff.1 h
      obtain ⟨before', w, code, after', hw, hcode, htext', rfl⟩ := CallSite.liesIn_iff.1 hs'
      obtain rfl | hs := List.mem_cons.1 hs
      · by_contra hc
        have hlast : passed = before ++ [c] := by
          refine eq_append_singleton htext (lt_of_not_ge fun hcursor => ?_) (hle.trans hstart.le)
          rw [htext] at hs' hfirst
          obtain ⟨t, ht, htstart⟩ := hs'.exists_earlier hstart (by simpa using hc)
          have hmin := hfirst t ht (htstart ▸ hcursor)
          have := c.utf8Size_pos
          rw [hstart, htstart, byteLength_append, byteLength] at hmin
          omega
        obtain rfl : c = tick := by simpa [isTick] using hpassed c (by simp [hlast])
        exact hc tick_not_identifierChar
      · have hsplit : passed ++ text = (before' ++ (Piece.call w code).source) ++ after' := by
          rw [htext']
          simp [Piece.source]
        rw [hsplit] at hrest htext
        have hnext : IsLeftmost (String.ofList ((before' ++ (Piece.call w code).source) ++ after'))
            (byteLength (before' ++ (Piece.call w code).source)) sites := by
          rw [byteLength_append]
          exact hrest
        refine ih hnext (fun b hb => ?_) hs htext
        rw [Piece.source, ← List.append_assoc, List.getLast?_concat] at hb
        cases hb
        exact isTick_tick

end IsLeftmost

/-- A scan finds the leftmost call-sites that do not overlap, and is the only list that does. So no
site can be extended to the left, and nothing that has the form of one lies beside them all. -/
theorem scan_finds_leftmost (buffer : String) :
    (∀ sites, IsLeftmost buffer 0 sites ↔ sites = scan buffer) ∧
      (∀ s ∈ scan buffer, ∀ before c after, buffer = before ++ String.singleton c ++ after →
        s.start = (before ++ String.singleton c).utf8ByteSize → isIdentifierChar c = false) ∧
      ∀ t : CallSite, t.LiesIn buffer → ∃ s ∈ scan buffer, s.start < t.stop ∧ t.start < s.stop := by
  have hscan := isLeftmost_scan buffer
  refine ⟨fun sites => ⟨fun h => h.unique hscan, fun h => h ▸ hscan⟩, ?_, ?_⟩
  · rintro s hs before c after rfl hstart
    have hchars : (before ++ String.singleton c ++ after).toList = before.toList ++ c :: after.toList := by simp
    rw [← String.ofList_toList (s := before ++ String.singleton c ++ after), hchars] at hscan hs
    have hnil : IsLeftmost (String.ofList ([] ++ (before.toList ++ c :: after.toList))) (byteLength []) _ := hscan
    refine hnil.not_isIdentifierChar_before nofun hs rfl ?_
    rw [hstart, ← utf8ByteSize_ofList]
    congr 1
    apply String.toList_injective
    simp
  · exact fun t ht => hscan.exists_overlap ht (Nat.zero_le _)

/-- A backtick that closes a site opens no other, and one without an identifier opens none. -/
theorem leftmost_nested :
    scan "é`a`b`c`d`" = [⟨"a", "b", 3, 7⟩, ⟨"c", "d", 7, 11⟩] ∧
      isIdentifierChar '\x60' = false ∧ CallSite.LiesIn ⟨"b", "c", 5, 9⟩ "é`a`b`c`d`" ∧
      ∃ s ∈ scan "é`a`b`c`d`", s.start < 9 ∧ 5 < s.stop := by
  have hscan : scan "é`a`b`c`d`" = [⟨"a", "b", 3, 7⟩, ⟨"c", "d", 7, 11⟩] := by decide +kernel
  have hlies : CallSite.LiesIn ⟨"b", "c", 5, 9⟩ "é`a`b`c`d`" :=
    ⟨⟨"é`a`", "d`", by decide, by decide, by decide⟩, by decide +kernel, by simp [isTick, tick]⟩
  obtain ⟨-, hbefore, hover⟩ := scan_finds_leftmost "é`a`b`c`d`"
  exact ⟨hscan, hbefore ⟨"a", "b", 3, 7⟩ (by rw [hscan]; decide) "é" '\x60' "a`b`c`d`" (by decide) (by decide),
    hlies, hover _ hlies⟩

end Inlay
