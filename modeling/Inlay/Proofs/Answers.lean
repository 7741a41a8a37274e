import Inlay.Proofs.Consent

namespace Inlay

namespace Text

variable {bytes : Bytes} {s : String} {word : List Char}

theorem decode?_eq_some : decode? bytes = some s ↔ encode s = bytes := by
  constructor
  · intro h
    rw [decode?, String.fromUTF8?] at h
    split at h
    · cases h
      rfl
    · cases h
  · rintro rfl
    exact decode?_encode s

theorem decode?_eq_none : decode? bytes = none ↔ ∀ s, encode s ≠ bytes := by
  rw [Option.eq_none_iff_forall_ne_some]
  exact forall_congr' fun s => not_congr decode?_eq_some

def AreBlank (cs : List Char) : Prop := ∀ c ∈ cs, isBlank c = true

theorem areBlank_takeWhile (cs : List Char) : AreBlank (cs.takeWhile isBlank) := fun _ h => List.mem_takeWhile_imp h

theorem dropWhile_blank_append (h : AreBlank word) (cs : List Char) :
    (word ++ cs).dropWhile isBlank = cs.dropWhile isBlank := List.dropWhile_append_of_pos h

theorem trim_eq_ofList (word : List Char) (hne : word ≠ []) (hstart : isBlank (word.head hne) = false)
    (hend : isBlank (word.getLast hne) = false) : trim s = String.ofList word ↔
      ∃ before after, AreBlank before ∧ AreBlank after ∧ s.toList = before ++ word ++ after := by
  rw [trim, String.ofList_inj, trimEnd]
  constructor
  · rintro rfl
    let cs := s.toList.dropWhile isBlank
    refine ⟨s.toList.takeWhile isBlank, (cs.reverse.takeWhile isBlank).reverse, areBlank_takeWhile _, ?_, ?_⟩
    · exact fun c hc => areBlank_takeWhile _ c (List.mem_reverse.1 hc)
    · rw [List.append_assoc, ← List.reverse_append, List.takeWhile_append_dropWhile, List.reverse_reverse,
        List.takeWhile_append_dropWhile]
  · rintro ⟨before, after, hbefore, hafter, hs⟩
    have hfront : (word ++ after).dropWhile isBlank = word ++ after := by
      obtain ⟨c, cs, rfl⟩ := List.exists_cons_of_ne_nil hne
      exact List.dropWhile_cons_of_neg (by simpa using hstart)
    have hback : word.reverse.dropWhile isBlank = word.reverse := by
      obtain ⟨cs, c, rfl⟩ := (List.eq_nil_or_concat' word).resolve_left hne
      rw [List.reverse_append]
      exact List.dropWhile_cons_of_neg (by simpa using hend)
    have hafter' : AreBlank after.reverse := fun c hc => hafter c (List.mem_reverse.1 hc)
    rw [hs, List.append_assoc, dropWhile_blank_append hbefore, hfront, List.reverse_append,
      dropWhile_blank_append hafter', hback, List.reverse_reverse]

end Text

namespace Confirm

variable {input line rest : Bytes} {lines : List Bytes}

/-- The answers of `n` readings one after the other, and the input that they leave. -/
def readAnswers : Nat → Bytes → List (Except Fault String) × Bytes
  | 0, input => ([], input)
  | n + 1, input =>
    let (answer, rest) := readAnswer input
    let (answers, rest) := readAnswers n rest
    (answer :: answers, rest)

/-- Lines taken off the input one after the other, and what is left of it. There is always a next one; it is empty
at the end of the input. -/
inductive Cuts : Bytes → List Bytes → Bytes → Prop
  | done (input : Bytes) : Cuts input [] input
  | line {line input rest : Bytes} {lines : List Bytes} (h : IsFirstLine line (line ++ input))
      (hrest : Cuts input lines rest) : Cuts (line ++ input) (line :: lines) rest

theorem Cuts.flatten_append (h : Cuts input lines rest) : lines.flatten ++ rest = input := by
  induction h with
  | done input => rfl
  | line _ _ ih => rw [List.flatten_cons, List.append_assoc, ih]

/-- A line of text is answered unchanged, any other line is a fault. -/
inductive Answers : Bytes → Except Fault String → Prop
  | text (s : String) : Answers (Text.encode s) (.ok s)
  | fault {line : Bytes} (h : ∀ s, Text.encode s ≠ line) : Answers line (.error .notUtf8)

theorem readAnswer_eq (input : Bytes) : ∃ answer, readAnswer input = (answer, (cutLine input).2) ∧
    Answers (cutLine input).1 answer := by
  unfold readAnswer
  cases h : Text.decode? (cutLine input).1 with
  | none => exact ⟨_, by simp only [h], .fault (Text.decode?_eq_none.1 h)⟩
  | some s =>
      refine ⟨.ok s, by simp only [h], ?_⟩
      rw [← Text.decode?_eq_some.1 h]
      exact .text s

theorem exists_cuts (n : Nat) (input : Bytes) : ∃ lines : List Bytes, lines.length = n ∧
    Cuts input lines (readAnswers n input).2 ∧ List.Forall₂ Answers lines (readAnswers n input).1 := by
  induction n generalizing input with
  | zero => exact ⟨[], rfl, .done input, .nil⟩
  | succ n ih =>
      obtain ⟨answer, hread, hanswer⟩ := readAnswer_eq input
      obtain ⟨lines, hlength, hcuts, hanswers⟩ := ih (cutLine input).2
      have hfirst : IsFirstLine (cutLine input).1 ((cutLine input).1 ++ (cutLine input).2) := by
        rw [cutLine_append]
        exact isFirstLine_iff.2 rfl
      have hcut := Cuts.line hfirst hcuts
      rw [cutLine_append] at hcut
      refine ⟨(cutLine input).1 :: lines, by rw [List.length_cons, hlength], ?_, ?_⟩
      · simpa only [readAnswers, hread] using hcut
      · simpa only [readAnswers, hread] using List.Forall₂.cons hanswer hanswers

theorem isConfirmed_iff {answer : String} : isConfirmed answer = true ↔ ∃ before after, Text.AreBlank before ∧
    Text.AreBlank after ∧ answer.toList = before ++ "yes".toList ++ after := by
  rw [isConfirmed, beq_iff_eq]
  exact Text.trim_eq_ofList "yes".toList (by decide) (by decide) (by decide)

/-- Any number of readings take the lines of the input in turn and answer each of them by itself. Only `yes` between
white space is a confirmation, so the end of the input is none. -/
theorem answers_are_lines (n : Nat) (input : Bytes) :
    (∃ lines : List Bytes, lines.length = n ∧ Cuts input lines (readAnswers n input).2 ∧
      lines.flatten ++ (readAnswers n input).2 = input ∧ List.Forall₂ Answers lines (readAnswers n input).1) ∧
    (∀ answer, isConfirmed answer = true ↔ ∃ before after, Text.AreBlank before ∧ Text.AreBlank after ∧
      answer.toList = before ++ "yes".toList ++ after) ∧
    readAnswer [] = (.ok "", []) ∧ isConfirmed "" = false := by
  obtain ⟨lines, hlength, hcuts, hanswers⟩ := exists_cuts n input
  refine ⟨⟨lines, hlength, hcuts, hcuts.flatten_append, hanswers⟩, fun _ => isConfirmed_iff, ?_, ?_⟩
  · have hempty : Text.decode? [] = some "" := Text.decode?_encode ""
    simp only [readAnswer, cutLine, hempty]
  · rw [Bool.eq_false_iff, Ne, isConfirmed_iff]
    rintro ⟨before, after, -, -, h⟩
    simp at h

end Confirm

end Inlay
