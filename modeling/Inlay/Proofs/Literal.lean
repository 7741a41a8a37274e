import Inlay.Transpiler
import Mathlib.Data.List.Basic
import Mathlib.Tactic.IntervalCases

namespace Inlay

namespace Escape

/-- Reads a string literal from behind its opening quote: what it denotes, and what follows it. A backslash
and the next character stand for that character, the first other quote ends the literal. -/
def readLiteral (q : Char) : List Char → Option (List Char × List Char)
  | [] => Option.none
  | c :: rest =>
    if c = '\\' then
      match rest with
      | [] => Option.none
      | c :: rest => (readLiteral q rest).map fun (body, rest) => (c :: body, rest)
    else if c = q then some ([], rest)
    else (readLiteral q rest).map fun (body, rest) => (c :: body, rest)

variable {e : Escape} {q : Char}

theorem readLiteral_escapeFor (hq : q ≠ '\\') (code rest : List Char) :
    readLiteral q (escapeFor q code ++ q :: rest) = some (code, rest) := by
  -- A character of the body is read as a whole, escaped or not, so the reader never stops inside of one.
  induction code with
  | nil =>
      rw [escapeFor, List.flatMap_nil, List.nil_append, readLiteral.eq_def]
      simp [hq]
  | cons c code ih =>
      rw [escapeFor, List.flatMap_cons, ← escapeFor, List.append_assoc]
      by_cases hc : c = '\\' ∨ c = q
      · rw [if_pos hc]
        simp [readLiteral, ih]
      · obtain ⟨hslash, hquote⟩ := not_or.1 hc
        rw [if_neg hc, List.singleton_append, readLiteral.eq_def]
        simp [hslash, hquote, ih]

theorem quote?_ne_backslash (h : e.quote? = some q) : q ≠ '\\' := by
  cases e with
  | none => cases h
  | singleQuote | doubleQuote =>
      cases h
      decide

theorem readLiteral_apply (h : e.quote? = some q) (code rest : List Char) :
    readLiteral q (e.apply code ++ q :: rest) = some (code, rest) := by
  unfold apply
  rw [h]
  exact readLiteral_escapeFor (quote?_ne_backslash h) code rest

theorem apply_injective (e : Escape) : Function.Injective e.apply := by
  intro code code' h
  cases hq : e.quote? with
  | none =>
      unfold apply at h
      rwa [hq] at h
  | some q =>
      have hread := readLiteral_apply hq code []
      rw [h, readLiteral_apply hq code' []] at hread
      exact (Prod.mk.inj (Option.some.inj hread)).1.symm

end Escape

namespace Template

variable {c : Char} {front rest : List Char}

theorem parts_ne_nil (cs : List Char) : parts cs ≠ [] := by
  fun_cases parts cs <;> simp

theorem parts_placeholder (rest : List Char) : parts (placeholder ++ rest) = [] :: parts rest := by
  simp [placeholder, parts]

theorem parts_cons {part : List Char} {more : List (List Char)} (h : ¬placeholder <+: c :: rest)
    (hrest : parts rest = part :: more) : parts (c :: rest) = (c :: part) :: more := by
  rw [parts, if_neg (by simpa [List.isPrefixOf_iff_prefix] using h), hrest]

theorem fill_nil (body : List Char) : fill [] body = [] := by simp [fill, parts]

theorem fill_placeholder (rest body : List Char) : fill (placeholder ++ rest) body = body ++ fill rest body := by
  rw [fill, parts_placeholder, List.intercalate_cons_of_ne_nil (parts_ne_nil rest), List.nil_append, ← fill]

theorem fill_cons (h : ¬placeholder <+: c :: rest) (body : List Char) : fill (c :: rest) body = c :: fill rest body := by
  obtain ⟨part, more, hrest⟩ := List.exists_cons_of_ne_nil (parts_ne_nil rest)
  rw [fill, parts_cons h hrest, fill, hrest]
  cases more <;> simp [List.intercalate_cons_cons]

theorem not_prefix_append (h : ¬placeholder <+: front) (hfront : front ≠ [])
    (hrest : ∀ c ∈ rest.head?, c ∉ placeholder.tail) : ¬placeholder <+: front ++ rest := by
  intro hbegin
  rcases Nat.lt_or_ge front.length placeholder.length with hshort | hlong
  · obtain ⟨t, ht⟩ := hbegin
    have hnext : (front ++ rest)[front.length]? = some placeholder[front.length] := by
      rw [← ht, List.getElem?_append_left hshort, List.getElem?_eq_getElem hshort]
    rw [List.getElem?_append_right (Nat.le_refl _), Nat.sub_self, ← List.head?_eq_getElem?] at hnext
    obtain ⟨k, hk⟩ := Nat.exists_eq_succ_of_ne_zero (List.length_pos_iff.2 hfront).ne'
    refine hrest _ hnext (List.mem_iff_getElem.2 ⟨k, ?_, ?_⟩)
    · rw [List.length_tail]
      omega
    · simp [hk]
  · exact h (List.prefix_of_prefix_length_le hbegin (List.prefix_append _ _) hlong)

theorem fill_append (front : List Char) (hrest : ∀ c ∈ rest.head?, c ∉ placeholder.tail) (body : List Char) :
    fill (front ++ rest) body = fill front body ++ fill rest body := by
  induction hlength : front.length using Nat.strong_induction_on generalizing front with
  | _ n ih =>
    by_cases h : placeholder <+: front
    · obtain ⟨front, rfl⟩ := h
      have hshorter : front.length < n := by
        rw [← hlength, List.length_append]
        exact Nat.lt_add_of_pos_left (by decide)
      rw [List.append_assoc, fill_placeholder, fill_placeholder, ih _ hshorter front rfl, List.append_assoc]
    · cases front with
      | nil => rw [fill_nil, List.nil_append, List.nil_append]
      | cons c front =>
          have hshorter : front.length < n := by
            rw [← hlength]
            exact Nat.lt_succ_self _
          have h' := not_prefix_append h (List.cons_ne_nil _ _) hrest
          rw [List.cons_append] at h' ⊢
          rw [fill_cons h', fill_cons h, ih _ hshorter front rfl, List.cons_append]

theorem fill_quoted {q : Char} (hq : q ∉ placeholder) (front back body : List Char) :
    fill (front ++ q :: (placeholder ++ q :: back)) body = fill front body ++ q :: (body ++ q :: fill back body) := by
  have hnot (rest : List Char) : ¬placeholder <+: q :: rest := by
    rintro ⟨t, ht⟩
    rw [← List.head_eq_of_cons_eq ht] at hq
    exact hq (by decide)
  rw [fill_append front, fill_cons (hnot _), fill_placeholder, fill_cons (hnot _)]
  intro c hc
  cases hc
  exact fun htail => hq (List.mem_of_mem_tail htail)

end Template

/-- A reader of the literal gets the body of the code, whatever it holds, and stops behind it. So wherever a
placeholder stands between two quotes, the output has a literal there that denotes the code. -/
theorem literal_denotes_code {e : Escape} {q : Char}
    (hstyle : e = .singleQuote ∧ q = '\'' ∨ e = .doubleQuote ∧ q = '"') :
    (∀ code rest, Escape.readLiteral q (e.apply code ++ q :: rest) = some (code, rest)) ∧
      (∀ (template : String) (front back : List Char),
        template.toList = front ++ q :: (Template.placeholder ++ q :: back) → ∀ (code : String) (d : Disk),
          ∃ output literal, (Transpiler.ofTemplate template e code).run d = (.ok output, d) ∧
            output.toList = Template.fill front (e.apply code.toList) ++ q :: literal ∧
            Escape.readLiteral q literal = some (code.toList, Template.fill back (e.apply code.toList))) ∧
      Function.Injective e.apply := by
  have hquote : e.quote? = some q := by
    obtain ⟨rfl, rfl⟩ | ⟨rfl, rfl⟩ := hstyle <;> rfl
  have hq : q ∉ Template.placeholder := by
    obtain ⟨rfl, rfl⟩ | ⟨rfl, rfl⟩ := hstyle <;> decide
  refine ⟨Escape.readLiteral_apply hquote, ?_, Escape.apply_injective e⟩
  intro template front back htemplate code d
  refine ⟨Template.expand template e code, _, rfl, ?_, Escape.readLiteral_apply hquote _ _⟩
  rw [Template.expand, String.toList_ofList, htemplate, Template.fill_quoted hq]

/-- A backslash at the end of the code does not swallow the closing quote. -/
theorem trailing_backslash_denoted :
    (Transpiler.ofTemplate "p('{code}')" .singleQuote "it's\\").run .empty = (.ok "p('it\\'s\\\\')", .empty) ∧
      ∃ literal, "p('it\\'s\\\\')".toList = ['p', '(', '\''] ++ literal ∧
        Escape.readLiteral '\'' literal = some ("it's\\".toList, [')']) := by
  have houtput : Template.expand "p('{code}')" .singleQuote "it's\\" = "p('it\\'s\\\\')" := by decide +kernel
  obtain ⟨-, hliteral, -⟩ := literal_denotes_code (.inl ⟨rfl, rfl⟩)
  obtain ⟨output, literal, hrun, houtput', hread⟩ :=
    hliteral "p('{code}')" ['p', '('] [')'] (by decide) "it's\\" .empty
  have hsame : output = "p('it\\'s\\\\')" := by
    rw [← houtput]
    cases hrun
    rfl
  refine ⟨hsame ▸ hrun, literal, ?_, ?_⟩
  · have hfill : Template.fill ['p', '('] (Escape.singleQuote.apply "it's\\".toList) = ['p', '('] := by decide +kernel
    rw [← hsame, houtput', hfill]
    rfl
  · have hfill : Template.fill [')'] (Escape.singleQuote.apply "it's\\".toList) = [')'] := by decide +kernel
    rw [hread, hfill]

end Inlay
