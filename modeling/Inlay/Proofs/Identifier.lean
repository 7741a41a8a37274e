import Inlay.Proofs.Leftmost
import Inlay.Registry
import Mathlib.Data.List.TFAE
import Mathlib.Tactic.TFAE

namespace Inlay

theorem scan_text {s code : String} (hs : IsWord s.toList) (hcode : ∀ c ∈ code.toList, isTick c = false) :
    scan (s.push tick ++ code.push tick) = [⟨s, code, 0, (s.push tick ++ code.push tick).utf8ByteSize⟩] := by
  have htext : (s.push tick ++ code.push tick).toList = (Piece.call s.toList code.toList).source := by
    simp [Piece.source]
  have hscan := sitesAt_call_append hs hcode 0 []
  rw [sitesAt_nil, String.ofList_toList, String.ofList_toList, Nat.zero_add] at hscan
  rw [scan, ← sitesAt, ← String.ofList_toList (s := s.push tick ++ code.push tick), utf8ByteSize_ofList,
    String.toList_ofList, htext]
  simpa [Piece.source] using hscan

theorem isIdentifier_of_mem_scan {buffer : String} {s : CallSite} (h : s ∈ scan buffer) :
    isIdentifier s.identifier = true :=
  ((isLeftmost_scan buffer).liesIn s h).identifier

namespace Registry

theorem exists_register_iff {r : Registry} {identifier : String} {t : Transpiler} :
    (∃ r', r.register identifier t = .ok r') ↔ isIdentifier identifier = true := by
  unfold register
  cases isIdentifier identifier with
  | true => simp
  | false => simp

end Registry

/-- An identifier is valid if a scan can find it at all, and then it is found whatever code it stands before. A
registry takes these identifiers and no others. -/
theorem identifiers_are_located (identifier : String) : List.TFAE
    [isIdentifier identifier = true,
      ∃ buffer, ∃ s ∈ scan buffer, s.identifier = identifier,
      ∀ code : String, (∀ c ∈ code.toList, isTick c = false) → scan (identifier.push tick ++ code.push tick) =
        [⟨identifier, code, 0, (identifier.push tick ++ code.push tick).utf8ByteSize⟩],
      ∀ (r : Registry) (t : Transpiler), ∃ r', r.register identifier t = .ok r'] := by
  tfae_have 1 → 3 := by
    intro h code hcode
    exact scan_text (isIdentifier_iff.1 h) hcode
  tfae_have 3 → 2 := by
    intro h
    obtain ⟨s, hscan, hs⟩ : ∃ s : CallSite, scan (identifier.push tick ++ "".push tick) = [s] ∧
        s.identifier = identifier := ⟨_, h "" (by simp), rfl⟩
    exact ⟨_, s, hscan ▸ List.mem_singleton_self s, hs⟩
  tfae_have 2 → 1 := by
    rintro ⟨buffer, s, hs, rfl⟩
    exact isIdentifier_of_mem_scan hs
  tfae_have 1 → 4 := by
    intro h r t
    exact Registry.exists_register_iff.2 h
  tfae_have 4 → 1 := by
    intro h
    exact Registry.exists_register_iff.1 (h .empty (Transpiler.ofTemplate "" .none))
  tfae_finish

/-- A line end in the code and the dot of the identifier change nothing; a line end in the identifier does. -/
theorem located_across_lines :
    scan "Neos.md`é\n`" = [⟨"Neos.md", "é\n", 0, 12⟩] ∧ ¬∃ buffer, ∃ s ∈ scan buffer, s.identifier = "md\n" := by
  refine ⟨?_, fun h => ?_⟩
  · have hlocated : ∀ code : String, (∀ c ∈ code.toList, isTick c = false) →
        scan ("Neos.md".push tick ++ code.push tick) =
          [⟨"Neos.md", code, 0, ("Neos.md".push tick ++ code.push tick).utf8ByteSize⟩] :=
      ((identifiers_are_located "Neos.md").out 0 2).1 (by decide)
    exact hlocated "é\n" (by simp [isTick, tick])
  · have hvalid : isIdentifier "md\n" = true := ((identifiers_are_located "md\n").out 0 1).2 h
    revert hvalid
    decide

end Inlay
