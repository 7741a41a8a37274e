import Inlay.Proofs.Literal
import Inlay.CallSite

namespace Inlay

namespace Template

/-- The parts of a template around its placeholders, none of which has another placeholder in it. -/
structure IsCut (template : List Char) (parts : List (List Char)) : Prop where
  nonempty : parts ≠ []
  joined : placeholder.intercalate parts = template
  free : ∀ part ∈ parts, ¬placeholder <:+: part

variable {part rest template : List Char} {ps : List (List Char)}

/-- A placeholder ends the part before it; it cannot begin in that part, as its first character is not in the
rest of it. -/
theorem parts_append_placeholder (hpart : ¬placeholder <:+: part) (rest : List Char) :
    parts (part ++ (placeholder ++ rest)) = part :: parts rest := by
  induction part with
  | nil => exact parts_placeholder rest
  | cons c part ih =>
      obtain ⟨hbegin, htail⟩ := not_or.1 (List.infix_cons_iff.not.1 hpart)
      have hnot : ¬placeholder <+: c :: part ++ (placeholder ++ rest) :=
        not_prefix_append hbegin (List.cons_ne_nil _ _) fun b hb => by
          cases hb
          decide
      exact parts_cons hnot (ih htail)

theorem parts_of_free (hpart : ¬placeholder <:+: part) : parts part = [part] := by
  induction part with
  | nil => rw [parts]
  | cons c part ih =>
      obtain ⟨hbegin, htail⟩ := not_or.1 (List.infix_cons_iff.not.1 hpart)
      exact parts_cons hbegin (ih htail)

theorem IsCut.parts_eq (h : IsCut template ps) : parts template = ps := by
  obtain ⟨hne, rfl, hfree⟩ := h
  induction ps with
  | nil => exact absurd rfl hne
  | cons part ps ih =>
      obtain ⟨hpart, hfree⟩ := List.forall_mem_cons.1 hfree
      cases ps with
      | nil => rw [List.intercalate_singleton, parts_of_free hpart]
      | cons next ps =>
          rw [List.intercalate_cons_cons, List.append_assoc, parts_append_placeholder hpart,
            ih (List.cons_ne_nil _ _) hfree]

theorem intercalate_parts (template : List Char) : placeholder.intercalate (parts template) = template := by
  fun_induction parts template with
  | case1 => rfl
  | case2 c cs h ih =>
      obtain ⟨rest, hrest⟩ := List.isPrefixOf_iff_prefix.1 h
      have hdrop : cs.drop 5 = rest := by
        have := congrArg (List.drop 6) hrest.symm
        simpa [placeholder] using this
      rw [List.intercalate_cons_of_ne_nil (parts_ne_nil _), ih, hdrop, List.nil_append, hrest]
  | case3 c cs h hparts => exact absurd hparts (parts_ne_nil cs)
  | case4 c cs h part rest hparts ih =>
      rw [hparts] at ih
      cases rest with
      | nil =>
          rw [List.intercalate_singleton] at ih ⊢
          rw [ih]
      | cons next rest =>
          rw [List.intercalate_cons_cons] at ih ⊢
          rw [← ih]
          rfl

theorem free_of_mem_parts (template : List Char) : ∀ part ∈ parts template, ¬placeholder <:+: part := by
  fun_induction parts template with
  | case1 => simp [placeholder]
  | case2 c cs h ih => exact List.forall_mem_cons.2 ⟨by simp [placeholder], ih⟩
  | case3 c cs h hparts => exact absurd hparts (parts_ne_nil cs)
  | case4 c cs h part rest hparts ih =>
      rw [hparts] at ih
      obtain ⟨hpart, hrest⟩ := List.forall_mem_cons.1 ih
      -- The part begins the text, so a placeholder at the beginning of the part would begin the text.
      have hbegins : part <+: cs := by
        rw [← intercalate_parts cs, hparts]
        cases rest with
        | nil => simp only [List.intercalate_singleton, List.prefix_rfl]
        | cons next rest =>
            rw [List.intercalate_cons_cons, List.append_assoc]
            exact List.prefix_append _ _
      refine List.forall_mem_cons.2 ⟨fun hinfix => ?_, hrest⟩
      obtain hbegin | hinfix := List.infix_cons_iff.1 hinfix
      · exact h (List.isPrefixOf_iff_prefix.2 (hbegin.trans (List.cons_prefix_cons.2 ⟨rfl, hbegins⟩)))
      · exact hpart hinfix

theorem isCut_iff : IsCut template ps ↔ ps = parts template := by
  constructor
  · intro h
    exact h.parts_eq.symm
  · rintro rfl
    exact ⟨parts_ne_nil _, intercalate_parts _, free_of_mem_parts _⟩

theorem mem_intercalate {c : Char} {sep : List Char} (hc : c ∉ sep) (ps : List (List Char)) :
    c ∈ sep.intercalate ps ↔ ∃ part ∈ ps, c ∈ part := by
  induction ps with
  | nil => simp
  | cons part ps ih =>
      cases ps with
      | nil => simp
      | cons next ps =>
          rw [List.intercalate_cons_cons]
          simp [ih, hc]

end Template

theorem Escape.mem_apply {c : Char} (hc : c ≠ '\\') (e : Escape) (code : List Char) : c ∈ e.apply code ↔ c ∈ code := by
  unfold apply
  cases e.quote? with
  | none => rfl
  | some q =>
      dsimp only
      rw [escapeFor, List.mem_flatMap]
      constructor
      · rintro ⟨b, hb, hmem⟩
        split at hmem
        · obtain rfl : c = b := by simpa [hc] using hmem
          exact hb
        · obtain rfl := List.mem_singleton.1 hmem
          exact hb
      · intro hmem
        refine ⟨c, hmem, ?_⟩
        split <;> simp

/-- The parts of a template around its placeholders are determined, and its output is these parts around the
escaped code, whatever the code holds. So of code without backticks a backtick in the output comes from the
template. -/
theorem template_filled_at_once (template : String) (e : Escape) :
    (∃! parts, Template.IsCut template.toList parts) ∧
      ∀ (code : String) (d : Disk), ∃ output, (Transpiler.ofTemplate template e code).run d = (.ok output, d) ∧
        (∀ parts, Template.IsCut template.toList parts →
          output.toList = (e.apply code.toList).intercalate parts) ∧
        (tick ∉ code.toList → (tick ∈ output.toList ↔ tick ∈ template.toList)) := by
  refine ⟨⟨_, Template.isCut_iff.2 rfl, fun parts h => Template.isCut_iff.1 h⟩, fun code d => ?_⟩
  refine ⟨Template.expand template e code, rfl, fun parts h => ?_, fun hcode => ?_⟩
  · rw [Template.expand, String.toList_ofList, Template.fill, h.parts_eq]
  · have hbody : tick ∉ e.apply code.toList := (Escape.mem_apply (by decide) e _).not.2 hcode
    have hplaceholder : tick ∉ Template.placeholder := by decide
    rw [Template.expand, String.toList_ofList, Template.fill, Template.mem_intercalate hbody,
      ← Template.mem_intercalate hplaceholder, Template.intercalate_parts]

/-- The code completes a placeholder on either side of its own, and is none itself any more. -/
theorem nested_filled_once :
    Template.IsCut "{co{code}de}".toList [['{', 'c', 'o'], ['d', 'e', '}']] ∧
      ∃ output, (Transpiler.ofTemplate "{co{code}de}" .none "de\x7d\x7bcode\x7d\x7bco").run .empty = (.ok output, .empty) ∧
        output.toList = "{code}{code}{code}".toList ∧ (tick ∈ output.toList ↔ tick ∈ "{co{code}de}".toList) := by
  have hcut : Template.IsCut "{co{code}de}".toList [['{', 'c', 'o'], ['d', 'e', '}']] :=
    ⟨by decide, by decide, by decide⟩
  obtain ⟨-, hfilled⟩ := template_filled_at_once "{co{code}de}" .none
  obtain ⟨output, hrun, hparts, htick⟩ := hfilled "de\x7d\x7bcode\x7d\x7bco" .empty
  exact ⟨hcut, output, hrun, hparts _ hcut, htick (by decide)⟩

end Inlay
