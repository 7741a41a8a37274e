import Inlay.Text.Utf8
import Mathlib.Data.String.Basic

namespace Inlay.Text

theorem encode_ofList (cs : List Char) : encode (String.ofList cs) = cs.flatMap String.utf8EncodeChar := by
  simp [encode, List.utf8Encode]

theorem encode_eq_flatMap (s : String) : encode s = s.toList.flatMap String.utf8EncodeChar := by
  rw [← encode_ofList, String.ofList_toList]

theorem utf8EncodeChar_append_lt {c d : Char} (h : c < d) (x y : Bytes) :
    String.utf8EncodeChar c ++ x < String.utf8EncodeChar d ++ y := by
  have hlt : c.val.toNat < d.val.toNat := h
  have hmax : d.val.toNat < 0x110000 := by
    have := d.valid
    simp only [UInt32.isValidChar, Nat.isValidChar] at this
    omega
  simp only [String.utf8EncodeChar]
  generalize c.val.toNat = m at *
  generalize d.val.toNat = n at *
  have hlead : m / 0x40000 < n / 0x40000 ∨ m / 0x40000 = n / 0x40000 := by omega
  have hnext : m / 0x1000 < n / 0x1000 ∨ m / 0x1000 = n / 0x1000 := by omega
  split_ifs <;> simp (disch := omega) only [List.cons_append, List.nil_append, List.cons_lt_cons_iff,
    UInt8.lt_iff_toNat_lt, UInt8.toNat_ofNat', ← UInt8.toNat_inj, Nat.reducePow, Nat.mod_eq_of_lt] <;> omega

theorem flatMap_utf8EncodeChar_lt {as bs : List Char} (h : as < bs) :
    as.flatMap String.utf8EncodeChar < bs.flatMap String.utf8EncodeChar := by
  induction as generalizing bs with
  | nil =>
      cases bs with
      | nil => cases h
      | cons b bs =>
          obtain ⟨byte, rest, hb⟩ := List.exists_cons_of_ne_nil (String.utf8EncodeChar_ne_nil (c := b))
          rw [List.flatMap_cons, hb]
          exact .nil
  | cons a as ih =>
      cases bs with
      | nil => cases h
      | cons b bs =>
          rcases List.cons_lt_cons_iff.1 h with hab | ⟨rfl, hrest⟩
          · exact utf8EncodeChar_append_lt hab _ _
          · exact List.append_left_lt (ih hrest)

theorem encode_lt_encode_iff {a b : String} : encode a < encode b ↔ a < b := by
  have hmono {a b : String} (h : a < b) : encode a < encode b := by
    rw [encode_eq_flatMap, encode_eq_flatMap]
    exact flatMap_utf8EncodeChar_lt (String.lt_iff.1 h)
  refine ⟨fun h => ?_, hmono⟩
  rcases lt_trichotomy a b with hab | rfl | hba
  · exact hab
  · exact absurd h (List.lt_irrefl _)
  · exact absurd h (List.lt_asymm (hmono hba))

end Inlay.Text
