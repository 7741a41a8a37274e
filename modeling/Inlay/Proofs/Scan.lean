import Inlay.CallSite
import Mathlib.Data.List.TakeWhile

namespace Inlay

def IsWord (w : List Char) : Prop := w ≠ [] ∧ ∀ c ∈ w, isIdentifierChar c

theorem isTick_tick : isTick tick = true := rfl

theorem tick_not_identifierChar : isIdentifierChar tick = false := by decide

theorem takeWhile_append_of_head {α : Type} {p : α → Bool} {w rest : List α} (hw : ∀ c ∈ w, p c)
    (hrest : ∀ c ∈ rest.head?, p c = false) : (w ++ rest).takeWhile p = w := by
  rw [List.takeWhile_append_of_pos hw]
  cases rest with
  | nil => simp
  | cons c cs => simp [hrest c rfl]

theorem dropWhile_append_of_head {α : Type} {p : α → Bool} {w rest : List α} (hw : ∀ c ∈ w, p c)
    (hrest : ∀ c ∈ rest.head?, p c = false) : (w ++ rest).dropWhile p = rest := by
  rw [List.dropWhile_append_of_pos hw]
  cases rest with
  | nil => rfl
  | cons c cs => simp [hrest c rfl]

theorem pieces_cons {c : Char} (hc : isIdentifierChar c = false) (cs : List Char) :
    pieces (c :: cs) = .plain [c] :: pieces cs := by
  rw [pieces]
  simp [hc]

/-- What becomes of a longest run of identifier characters is decided by what follows it. -/
theorem pieces_word {w rest : List Char} (hw : IsWord w)
    (hrest : ∀ c ∈ rest.head?, isIdentifierChar c = false) :
    pieces (w ++ rest) =
      match rest with
      | [] => [.plain w]
      | t :: body =>
        if isTick t then
          match body.dropWhile (!isTick ·) with
          | [] => [.plain (w ++ t :: body)]
          | _ :: after => .call w (body.takeWhile (!isTick ·)) :: pieces after
        else .plain w :: pieces (t :: body) := by
  obtain ⟨hne, hw⟩ := hw
  cases w with
  | nil => exact absurd rfl hne
  | cons c w =>
      have hc := hw c List.mem_cons_self
      have hw' : ∀ b ∈ w, isIdentifierChar b := fun b hb => hw b (List.mem_cons_of_mem _ hb)
      have htake := takeWhile_append_of_head hw' hrest
      have hdrop := dropWhile_append_of_head hw' hrest
      rw [List.cons_append, pieces, if_pos hc, htake]
      split
      · next h =>
          rw [hdrop] at h
          subst h
          rfl
      · next t body h =>
          rw [hdrop] at h
          subst h
          cases ht : isTick t with
          | false => simp [ht]
          | true =>
              simp only [if_true]
              split
              · next h' => simp [ht, h']
              · next u after h' => simp [ht, h']

theorem pieces_word_append {w rest : List Char} (hw : IsWord w)
    (hrest : ∀ c ∈ rest.head?, isIdentifierChar c = false ∧ isTick c = false) :
    pieces (w ++ rest) = .plain w :: pieces rest := by
  rw [pieces_word hw fun c hc => (hrest c hc).1]
  cases rest with
  | nil => simp [pieces]
  | cons t body => simp [(hrest t rfl).2]

theorem pieces_call_append {w code : List Char} (hw : IsWord w) (hcode : ∀ c ∈ code, isTick c = false)
    (rest : List Char) : pieces (w ++ tick :: (code ++ tick :: rest)) = .call w code :: pieces rest := by
  have hcode' : ∀ c ∈ code, (!isTick c) = true := fun c hc => by simp [hcode c hc]
  have hhead : ∀ c ∈ (tick :: rest).head?, (!isTick c) = false := fun c hc => by
    cases hc
    rfl
  rw [pieces_word hw fun c hc => by cases hc; exact tick_not_identifierChar]
  simp only [isTick_tick, if_true, dropWhile_append_of_head hcode' hhead,
    takeWhile_append_of_head hcode' hhead]

theorem pieces_unclosed {w body : List Char} (hw : IsWord w) (hbody : ∀ c ∈ body, isTick c = false) :
    pieces (w ++ tick :: body) = [.plain (w ++ tick :: body)] := by
  have hdrop : body.dropWhile (!isTick ·) = [] :=
    List.dropWhile_eq_nil_iff.2 fun c hc => by simp [hbody c hc]
  rw [pieces_word hw fun c hc => by cases hc; exact tick_not_identifierChar]
  simp only [isTick_tick, if_true, hdrop]

theorem isWord_takeWhile {c : Char} (hc : isIdentifierChar c = true) (cs : List Char) :
    IsWord (c :: cs.takeWhile isIdentifierChar) := by
  refine ⟨List.cons_ne_nil _ _, fun b hb => ?_⟩
  rcases List.mem_cons.1 hb with rfl | hb
  · exact hc
  · exact List.mem_takeWhile_imp hb

theorem not_isTick_of_mem_takeWhile {cs : List Char} {c : Char} (h : c ∈ cs.takeWhile (!isTick ·)) :
    isTick c = false := by
  simpa using List.mem_takeWhile_imp h

theorem head_dropWhile {p : Char → Bool} {cs rest : List Char} {c : Char} (h : cs.dropWhile p = c :: rest) :
    p c = false := by
  have := List.head?_dropWhile_not p cs
  rwa [h] at this

@[elab_as_elim]
theorem text_induction {motive : List Char → Prop} (nil : motive [])
    (other : ∀ c cs, isIdentifierChar c = false → motive cs → motive (c :: cs))
    (word : ∀ w rest, IsWord w → (∀ c ∈ rest.head?, isIdentifierChar c = false ∧ isTick c = false) →
      motive rest → motive (w ++ rest))
    (call : ∀ w code rest, IsWord w → (∀ c ∈ code, isTick c = false) → motive rest →
      motive (w ++ tick :: (code ++ tick :: rest)))
    (unclosed : ∀ w body, IsWord w → (∀ c ∈ body, isTick c = false) → motive (w ++ tick :: body))
    (text : List Char) : motive text := by
  fun_induction pieces text with
  | case1 => exact nil
  | case2 c cs hc identifier h =>
      have hcs := List.takeWhile_append_dropWhile (p := isIdentifierChar) (l := cs)
      rw [h, List.append_nil] at hcs
      have := word _ [] (isWord_takeWhile hc cs) (by simp) nil
      rwa [hcs, List.append_nil] at this
  | case3 c cs hc identifier t body h ht h' =>
      have hcs := List.takeWhile_append_dropWhile (p := isIdentifierChar) (l := cs)
      obtain rfl : t = tick := by simpa [isTick] using ht
      rw [← hcs, h, ← List.cons_append]
      refine unclosed _ body (isWord_takeWhile hc cs) fun b hb => ?_
      simpa using List.dropWhile_eq_nil_iff.1 h' b hb
  | case4 c cs hc identifier t body h ht u rest h' ih =>
      have hcs := List.takeWhile_append_dropWhile (p := isIdentifierChar) (l := cs)
      have hbody := List.takeWhile_append_dropWhile (p := (!isTick ·)) (l := body)
      obtain rfl : t = tick := by simpa [isTick] using ht
      obtain rfl : u = tick := by simpa [isTick] using head_dropWhile h'
      rw [← hcs, h, ← hbody, h', ← List.cons_append]
      exact call _ _ rest (isWord_takeWhile hc cs) (fun b hb => not_isTick_of_mem_takeWhile hb) ih
  | case5 c cs hc identifier t body h ht ih =>
      have hcs := List.takeWhile_append_dropWhile (p := isIdentifierChar) (l := cs)
      rw [← hcs, h, ← List.cons_append]
      refine word _ _ (isWord_takeWhile hc cs) (fun b hb => ?_) ih
      cases hb
      exact ⟨head_dropWhile h, by simpa using ht⟩
  | case6 c cs hc ih => exact other c cs (by simpa using hc) ih

/-- A text that closes no code body and ends no identifier. -/
def IsInert (text : List Char) : Prop :=
  (∀ c ∈ text, isTick c = false) ∧ ∀ c ∈ text.getLast?, isIdentifierChar c = false

instance (text : List Char) : Decidable (IsInert text) :=
  decidable_of_iff (text.all (!isTick ·) = true ∧ text.getLast?.all (!isIdentifierChar ·) = true)
    (by simp [IsInert, Option.all_eq_true])

theorem IsInert.of_append {before text : List Char} (h : IsInert (before ++ text)) : IsInert text := by
  refine ⟨fun c hc => h.1 c (List.mem_append_right _ hc), fun c hc => h.2 c ?_⟩
  rw [List.getLast?_append, hc]
  rfl

theorem not_isInert_of_isWord {w : List Char} (hw : IsWord w) : ¬ IsInert w := by
  intro h
  have hlast := List.getLast?_eq_some_getLast hw.1
  have := h.2 _ hlast
  rw [hw.2 _ (List.getLast_mem hw.1)] at this
  cases this

theorem byteLength_append (as bs : List Char) : byteLength (as ++ bs) = byteLength as + byteLength bs := by
  induction as with
  | nil => simp [byteLength]
  | cons c cs ih => simp [byteLength, ih, Nat.add_assoc]

theorem utf8ByteSize_ofList (cs : List Char) : (String.ofList cs).utf8ByteSize = byteLength cs := by
  induction cs with
  | nil => rfl
  | cons c cs ih =>
      rw [← List.singleton_append, String.ofList_append, String.utf8ByteSize_append, ih,
        ← String.singleton_eq_ofList, String.utf8ByteSize_singleton]
      rfl

def sitesAt (offset : Nat) (text : List Char) : List CallSite := sitesFrom offset (pieces text)

theorem sitesAt_nil (offset : Nat) : sitesAt offset [] = [] := by simp [sitesAt, pieces, sitesFrom]

theorem sitesAt_cons {c : Char} (hc : isIdentifierChar c = false) (offset : Nat) (cs : List Char) :
    sitesAt offset (c :: cs) = sitesAt (offset + c.utf8Size) cs := by
  simp [sitesAt, pieces_cons hc, sitesFrom, Piece.source, byteLength]

theorem sitesAt_word_append {w rest : List Char} (hw : IsWord w)
    (hrest : ∀ c ∈ rest.head?, isIdentifierChar c = false ∧ isTick c = false) (offset : Nat) :
    sitesAt offset (w ++ rest) = sitesAt (offset + byteLength w) rest := by
  simp [sitesAt, pieces_word_append hw hrest, sitesFrom, Piece.source]

theorem sitesAt_call_append {w code : List Char} (hw : IsWord w) (hcode : ∀ c ∈ code, isTick c = false)
    (offset : Nat) (rest : List Char) :
    sitesAt offset (w ++ tick :: (code ++ tick :: rest)) =
      ⟨String.ofList w, String.ofList code, offset, offset + byteLength (Piece.call w code).source⟩ ::
        sitesAt (offset + byteLength (Piece.call w code).source) rest := by
  simp [sitesAt, pieces_call_append hw hcode, sitesFrom]

theorem sitesAt_unclosed {w body : List Char} (hw : IsWord w) (hbody : ∀ c ∈ body, isTick c = false)
    (offset : Nat) : sitesAt offset (w ++ tick :: body) = [] := by
  simp [sitesAt, pieces_unclosed hw hbody, sitesFrom]

/-- An inert text has no call-sites and has no part in those of the text that follows it. -/
theorem sitesAt_append_of_isInert {text : List Char} (h : IsInert text) (offset : Nat) (rest : List Char) :
    sitesAt offset (text ++ rest) = sitesAt (offset + byteLength text) rest := by
  induction text using text_induction generalizing offset with
  | nil => rfl
  | other c cs hc ih =>
      have hcs : IsInert cs := (show IsInert ([c] ++ cs) from h).of_append
      rw [List.cons_append, sitesAt_cons hc, ih hcs, byteLength, Nat.add_assoc]
  | word w tail hw htail ih =>
      cases tail with
      | nil => exact absurd (List.append_nil w ▸ h) (not_isInert_of_isWord hw)
      | cons t tail =>
          rw [List.append_assoc, sitesAt_word_append hw (by simpa using htail),
            ih (IsInert.of_append h), byteLength_append, Nat.add_assoc]
  | call w code tail hw hcode ih =>
      have := h.1 tick (by simp)
      cases this
  | unclosed w body hw hbody =>
      have := h.1 tick (by simp)
      cases this

end Inlay
