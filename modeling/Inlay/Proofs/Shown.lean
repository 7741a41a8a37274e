import Inlay.Proofs.Marks

namespace Inlay.Diff

section Lines

variable {body ending tail : List Char}

def IsBreak (c : Char) : Prop := c = '\n' ∨ c = '\r'

/-- A line of a text: characters without a break, and how the line ends. -/
structure IsLine (body ending : List Char) : Prop where
  body : ∀ c ∈ body, ¬ IsBreak c
  ending : ending = [] ∨ ending = ['\n'] ∨ ending = ['\r', '\n'] ∨ ending = ['\r']

theorem cutLines_cons {c : Char} (hc : ¬ IsBreak c) (cs : List Char) : cutLines (c :: cs) =
    match cutLines cs with
    | [] => [[c]]
    | line :: lines => (c :: line) :: lines := by
  have hr : c ≠ '\r' := fun h => hc (.inr h)
  rw [cutLines.eq_3 c cs (fun _ h _ => hr h)]
  exact if_neg hc

theorem cutLines_ending (h : IsLine [] ending) (hne : ending ≠ []) (htail : '\n' ∉ tail.head?) :
    cutLines (ending ++ tail) = ending :: cutLines tail := by
  rcases h.ending with rfl | rfl | rfl | rfl
  · exact absurd rfl hne
  · simp [cutLines]
  · simp [cutLines]
  · have hnot (rest : List Char) : tail ≠ '\n' :: rest := by
      rintro rfl
      exact htail rfl
    rw [List.singleton_append, cutLines.eq_3 _ _ (fun rest _ h => hnot rest h), if_pos (.inr rfl)]

theorem cutLines_line (h : IsLine body ending) (hne : ending ≠ []) (htail : '\n' ∉ tail.head?) :
    cutLines (body ++ ending ++ tail) = (body ++ ending) :: cutLines tail := by
  induction body with
  | nil => exact cutLines_ending h hne htail
  | cons c body ih =>
      obtain ⟨hc, hbody⟩ := List.forall_mem_cons.1 h.body
      rw [List.cons_append, List.cons_append, cutLines_cons hc, ih ⟨hbody, h.ending⟩]

theorem isLine_of_mem_cutLines (cs : List Char) :
    ∀ l ∈ cutLines cs, ∃ body ending, l = body ++ ending ∧ IsLine body ending := by
  fun_induction cutLines cs with
  | case1 => exact List.forall_mem_nil _
  | case2 rest ih => exact List.forall_mem_cons.2 ⟨⟨[], ['\r', '\n'], rfl, List.forall_mem_nil _, by simp⟩, ih⟩
  | case3 c rest _ hc ih =>
      refine List.forall_mem_cons.2 ⟨⟨[], [c], rfl, List.forall_mem_nil _, ?_⟩, ih⟩
      rcases hc with rfl | rfl <;> simp
  | case4 c rest _ hc _ ih =>
      exact List.forall_mem_singleton.2 ⟨[c], [], rfl, List.forall_mem_singleton.2 hc, .inl rfl⟩
  | case5 c rest _ hc line lines hrest ih =>
      rw [hrest] at ih
      obtain ⟨⟨body, ending, rfl, h⟩, hlines⟩ := List.forall_mem_cons.1 ih
      exact List.forall_mem_cons.2
        ⟨⟨c :: body, ending, rfl, List.forall_mem_cons.2 ⟨hc, h.body⟩, h.ending⟩, hlines⟩

theorem isEnded_iff (h : IsLine body ending) : isEnded (String.ofList (body ++ ending)) ↔ ending ≠ [] := by
  rw [isEnded_ofList]
  rcases h.ending with rfl | rfl | rfl | rfl
  · rw [List.append_nil]
    refine ⟨?_, fun h => absurd rfl h⟩
    rintro ⟨c, hlast, hbreak⟩
    exact absurd hbreak (h.body c (List.mem_of_mem_getLast? hlast))
  · simp
  · simp
  · simp

end Lines

def Kind.sign : Kind → Char
  | .keep => ' '
  | .remove => '-'
  | .add => '+'

def Kind.ofSign? : Char → Option Kind
  | ' ' => some .keep
  | '-' => some .remove
  | '+' => some .add
  | _ => none

@[simp] theorem Kind.ofSign?_sign (k : Kind) : ofSign? k.sign = some k := by cases k <;> rfl

def hint : List Char := '\\' :: " No newline at end of file\n".toList

/-- What the lines of hunks show. The other lines are headers of hunks and hints. -/
def readMarks : List (List Char) → List Mark
  | [] => []
  | [] :: rest => readMarks rest
  | (c :: cs) :: rest =>
    match Kind.ofSign? c with
    | some k => ⟨k, .ofList (if rest.head? = some hint then cs.dropLast else cs)⟩ :: readMarks rest
    | none => readMarks rest

theorem readMarks_sign (k : Kind) (cs : List Char) (rest : List (List Char)) : readMarks ((k.sign :: cs) :: rest) =
    ⟨k, .ofList (if rest.head? = some hint then cs.dropLast else cs)⟩ :: readMarks rest := by
  rw [readMarks, Kind.ofSign?_sign]

theorem readMarks_hint (rest : List (List Char)) : readMarks (hint :: rest) = readMarks rest := rfl

section Reading

variable {m : Mark} {ms : List Mark} {tail : List Char}

/-- The text neither goes on with the line before it nor gives a hint on it. -/
def Opens (tail : List Char) : Prop := ∀ c ∈ tail.head?, c ≠ '\n' ∧ c ≠ '\\'

theorem Opens.not_mem (h : Opens tail) : '\n' ∉ tail.head? := fun hc => (h _ hc).1 rfl

theorem Opens.head_cutLines_ne (h : Opens tail) : (cutLines tail).head? ≠ some hint := by
  intro hhint
  obtain ⟨rest, hrest⟩ := List.head?_eq_some_iff.1 hhint
  have htail := flatten_cutLines tail
  rw [hrest] at htail
  exact (h '\\' (by rw [← htail]; rfl)).2 rfl

theorem cutLines_hint (h : Opens tail) : cutLines (hint ++ tail) = hint :: cutLines tail :=
  have hline : IsLine ('\\' :: " No newline at end of file".toList) ['\n'] := ⟨by simp [IsBreak], by simp⟩
  cutLines_line hline (List.cons_ne_nil _ _) h.not_mem

namespace Mark

def text (m : Mark) : String := lineText m.kind.sign m.line

def IsOfText (m : Mark) : Prop := ∃ body ending, m.line.toList = body ++ ending ∧ IsLine body ending

theorem toList_text (m : Mark) :
    m.text.toList = m.kind.sign :: m.line.toList ++ if isEnded m.line then [] else '\n' :: hint := by
  rw [text, lineText, String.toList_append, String.toList_append, String.toList_singleton]
  split
  · rfl
  · rfl

theorem opens_text (m : Mark) (tail : List Char) : Opens (m.text.toList ++ tail) := by
  rw [toList_text]
  rintro c ⟨⟩
  cases m.kind <;> decide

/-- A printed line is read back, whether it has an end of its own or is followed by a hint. -/
theorem readMarks_text (hm : m.IsOfText) (htail : Opens tail) :
    readMarks (cutLines (m.text.toList ++ tail)) = m :: readMarks (cutLines tail) := by
  obtain ⟨body, ending, hline, h⟩ := hm
  have hsigned : IsLine (m.kind.sign :: body) ending := by
    refine ⟨List.forall_mem_cons.2 ⟨?_, h.body⟩, h.ending⟩
    cases m.kind <;> simp [Kind.sign, IsBreak]
  have hended : isEnded m.line ↔ ending ≠ [] := by rw [← isEnded_iff h, ← hline, String.ofList_toList]
  by_cases hnone : ending = []
  · subst hnone
    have htext : m.text.toList ++ tail = (m.kind.sign :: body) ++ ['\n'] ++ (hint ++ tail) := by
      rw [toList_text, if_neg (by simp [hended]), hline]
      simp
    have hopens : '\n' ∉ (hint ++ tail).head? := fun h => absurd (Option.some.inj h) (by decide)
    have hcut := cutLines_line ⟨hsigned.body, .inr (.inl rfl)⟩ (List.cons_ne_nil '\n' []) hopens
    rw [htext, hcut, cutLines_hint htail, List.cons_append, readMarks_sign, List.head?_cons, if_pos rfl,
      List.dropLast_concat, readMarks_hint, ← List.append_nil body, ← hline, String.ofList_toList]
  · have htext : m.text.toList ++ tail = (m.kind.sign :: body) ++ ending ++ tail := by
      rw [toList_text, if_pos (hended.2 hnone), hline]
      simp
    rw [htext, cutLines_line hsigned hnone htail.not_mem, List.cons_append, readMarks_sign,
      if_neg htail.head_cutLines_ne, ← hline, String.ofList_toList]

theorem opens_texts (ms : List Mark) (htail : Opens tail) : Opens (ms.flatMap (·.text.toList) ++ tail) := by
  cases ms with
  | nil => exact htail
  | cons m ms =>
      rw [List.flatMap_cons, List.append_assoc]
      exact m.opens_text _

theorem readMarks_texts (hms : ∀ m ∈ ms, m.IsOfText) (htail : Opens tail) :
    readMarks (cutLines (ms.flatMap (·.text.toList) ++ tail)) = ms ++ readMarks (cutLines tail) := by
  induction ms with
  | nil => rfl
  | cons m ms ih =>
      obtain ⟨hm, hms⟩ := List.forall_mem_cons.1 hms
      rw [List.flatMap_cons, List.append_assoc, readMarks_text hm (opens_texts ms htail), ih hms, List.cons_append]

end Mark

theorem Block.toList_text (b : Block) : b.text.toList = b.marks.flatMap (·.text.toList) := by
  cases b <;> simp [Block.text, Block.marks, Mark.keeps, Mark.text, Kind.sign, String.toList_join, List.flatMap_map]

namespace Hunk

variable {h : Hunk}

def marks (h : Hunk) : List Mark := h.blocks.flatMap Block.marks

theorem toList_body (h : Hunk) :
    (String.join (h.blocks.map Block.text)).toList = h.marks.flatMap (·.text.toList) := by
  rw [String.toList_join, List.flatMap_map, marks, List.flatMap_assoc]
  exact List.flatMap_congr fun b _ => b.toList_text

theorem not_isBreak_of_mem_rangeText {start stop : Nat} {c : Char} (hc : c ∈ (rangeText start stop).toList) :
    ¬ IsBreak c := by
  have hnumber {n : Nat} (hc : c ∈ (toString n).toList) : ¬ IsBreak c := by
    rw [Nat.toString_eq_repr, Nat.toList_repr] at hc
    have hdigit := Nat.isDigit_of_mem_toDigits (by omega) (by omega) hc
    rintro (rfl | rfl)
    · exact absurd hdigit (by decide)
    · exact absurd hdigit (by decide)
  simp only [rangeText] at hc
  split at hc
  · exact hnumber hc
  · rw [String.toList_append, String.toList_append, List.mem_append, List.mem_append] at hc
    rcases hc with (hc | hc) | hc
    · exact hnumber hc
    · obtain rfl : c = ',' := by simpa using hc
      simp [IsBreak]
    · exact hnumber hc

def ranges (h : Hunk) : List Char :=
  "@ -".toList ++ (rangeText h.oldStart h.oldEnd).toList ++ " +".toList ++ (rangeText h.newStart h.newEnd).toList ++
    " @@".toList

theorem toList_text (h : Hunk) : h.text.toList =
    if h.marks = [] then [] else '@' :: h.ranges ++ ['\n'] ++ h.marks.flatMap (·.text.toList) := by
  have hempty : String.join (h.blocks.map Block.text) = "" ↔ h.marks = [] := by
    rw [← String.toList_inj, toList_body, String.toList_empty]
    cases h.marks with
    | nil => simp
    | cons m ms => simp [Mark.toList_text]
  unfold text
  simp only [String.isEmpty_iff, hempty]
  split
  · rfl
  · simp [ranges, ← toList_body]

theorem isLine_ranges (h : Hunk) : IsLine ('@' :: h.ranges) ['\n'] := by
  refine ⟨List.forall_mem_cons.2 ⟨by simp [IsBreak], fun c hc => ?_⟩, .inr (.inl rfl)⟩
  simp only [ranges, List.mem_append] at hc
  rcases hc with (((hc | hc) | hc) | hc) | hc
  · revert c
    simp [IsBreak]
  · exact not_isBreak_of_mem_rangeText hc
  · revert c
    simp [IsBreak]
  · exact not_isBreak_of_mem_rangeText hc
  · revert c
    simp [IsBreak]

theorem opens_text (h : Hunk) (htail : Opens tail) : Opens (h.text.toList ++ tail) := by
  rw [toList_text]
  split
  · exact htail
  · rintro c ⟨⟩
    decide

theorem readMarks_text (hms : ∀ m ∈ h.marks, m.IsOfText) (htail : Opens tail) :
    readMarks (cutLines (h.text.toList ++ tail)) = h.marks ++ readMarks (cutLines tail) := by
  rw [toList_text]
  split
  · next hempty => rw [hempty, List.nil_append, List.nil_append]
  · rw [List.append_assoc, cutLines_line h.isLine_ranges (List.cons_ne_nil _ _) (Mark.opens_texts _ htail).not_mem]
    exact Mark.readMarks_texts hms htail

theorem readMarks_texts (hs : List Hunk) (hms : ∀ m ∈ hs.flatMap marks, m.IsOfText) :
    readMarks (cutLines (String.join (hs.map text)).toList) = hs.flatMap marks := by
  rw [String.toList_join, List.flatMap_map]
  have hopens (hs : List Hunk) : Opens (hs.flatMap (·.text.toList)) := by
    induction hs with
    | nil => exact fun _ h => absurd h nofun
    | cons h hs ih => exact h.opens_text ih
  induction hs with
  | nil => rfl
  | cons h hs ih =>
      rw [List.flatMap_cons, List.forall_mem_append] at hms
      rw [List.flatMap_cons, List.flatMap_cons, h.readMarks_text hms.1 (hopens hs), ih hms.2]

end Hunk

end Reading

theorem marks_hunks (radius : Nat) {s : Script} (hs : Script.AreFilled s) :
    (hunks radius s).flatMap Hunk.marks = Mark.within radius ((blocks s).flatMap Block.marks) := by
  have hblocks (groups : List (List Block)) :
      (groups.filterMap Hunk.ofBlocks?).flatMap Hunk.marks = groups.flatten.flatMap Block.marks := by
    induction groups with
    | nil => rfl
    | cons bs groups ih =>
        cases bs with
        | nil => exact ih
        | cons b bs =>
            have hlast := List.getLast?_eq_some_getLast (List.cons_ne_nil b bs)
            rw [List.filterMap_cons_some (by rw [Hunk.ofBlocks?, hlast]; rfl), List.flatMap_cons, ih, List.flatten_cons,
              List.flatMap_append]
            rfl
  rw [hunks, hblocks, Block.marks_cut_trimEnds radius (Block.alternate_blocks hs)]

end Inlay.Diff

namespace Inlay

open Diff

namespace Presenter

def header (p : Presenter) : String := "--- " ++ p.oldLabel ++ "\n+++ " ++ p.newLabel ++ "\n"

def shown (p : Presenter) (text : String) : List Mark := readMarks (cutLines (text.toList.drop p.header.toList.length))

end Presenter

namespace Diff

def marks (old new : String) : List Mark := (blocks (script old new)).flatMap Block.marks

theorem oldSide_marks (old new : String) : Mark.oldSide (marks old new) = lines old := by
  rw [marks, Block.oldSide_marks, (Block.reads_blocks _).oldSide, (spans_script old new).oldSide]

theorem newSide_marks (old new : String) : Mark.newSide (marks old new) = lines new := by
  rw [marks, Block.newSide_marks, (Block.reads_blocks _).newSide, (spans_script old new).newSide]

theorem isOfText_of_mem_marks {old new : String} {m : Mark} (hm : m ∈ marks old new) : m.IsOfText := by
  have hline (text : String) (hl : m.line ∈ lines text) : m.IsOfText := by
    obtain ⟨l, hl, hm⟩ := List.mem_map.1 hl
    rw [Mark.IsOfText, ← hm, String.toList_ofList]
    exact isLine_of_mem_cutLines _ l hl
  by_cases hadd : m.kind = .add
  · refine hline new ?_
    rw [← newSide_marks old new]
    exact List.mem_map_of_mem (List.mem_filter.2 ⟨hm, by simp [hadd]⟩)
  · refine hline old ?_
    rw [← oldSide_marks old new]
    exact List.mem_map_of_mem (List.mem_filter.2 ⟨hm, by simp [hadd]⟩)

end Diff

theorem Presenter.shown_diff (p : Presenter) (old new : String) :
    p.shown (p.diff old new) = Mark.within p.contextRadius (marks old new) := by
  have hmarks := marks_hunks p.contextRadius (spans_script old new).areFilled
  rw [marks, ← hmarks, shown, diff]
  have htexts := Hunk.readMarks_texts (hunks p.contextRadius (script old new)) fun m hm =>
    isOfText_of_mem_marks ((Mark.within_sublist _ _).subset (hmarks ▸ hm))
  generalize hunks p.contextRadius (script old new) = hs at htexts ⊢
  cases hs with
  | nil => simp [cutLines, readMarks]
  | cons h hs =>
      dsimp only
      rw [← header, String.toList_append, List.drop_left, htexts]

/-- For any two texts there is one script such that a diff of them shows its changes and the kept lines near one.
Without context no kept line is shown, and a larger context shows no less and the same changes. -/
theorem context_adds_kept_lines (old new : String) : ∃ s : List Mark,
    Mark.oldSide s = lines old ∧ Mark.newSide s = lines new ∧
    (∀ p : Presenter, p.shown (p.diff old new) = Mark.within p.contextRadius s ∧
      (p.shown (p.diff old new)).filter Mark.isChange = s.filter Mark.isChange ∧
      (p.contextRadius = 0 → p.shown (p.diff old new) = s.filter Mark.isChange)) ∧
    ∀ p p' : Presenter, p.contextRadius ≤ p'.contextRadius →
      (p.shown (p.diff old new)).Sublist (p'.shown (p'.diff old new)) := by
  refine ⟨marks old new, oldSide_marks old new, newSide_marks old new, fun p => ⟨p.shown_diff old new, ?_, ?_⟩, ?_⟩
  · rw [p.shown_diff, Mark.filter_within]
  · intro hzero
    rw [p.shown_diff, hzero, Mark.within_zero]
  · intro p p' hle
    rw [p.shown_diff, p'.shown_diff]
    exact Mark.within_sublist_within hle _

end Inlay
