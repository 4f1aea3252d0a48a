import Ecoa.Language.Basic

/-!
# Names of languages in lower case

Only the letters of ASCII have a lower case, and no blank is among them, so that a name is read as
the same language in whatever case it is kept.
-/

namespace Ecoa

namespace Text

/-- In lower case, the upper-case letters of ASCII have the numbers of the lower-case ones. -/
theorem toNat_toLower (c : Char) :
    c.toLower.toNat = if 65 ≤ c.toNat ∧ c.toNat ≤ 90 then c.toNat + 32 else c.toNat := by
  have hupper : (c.val ≥ 'A'.val ∧ c.val ≤ 'Z'.val) ↔ (65 ≤ c.toNat ∧ c.toNat ≤ 90) := by
    simp only [ge_iff_le, UInt32.le_iff_toNat_le]
    rfl
  unfold Char.toLower
  split
  · next h =>
    rw [hupper] at h
    rw [if_pos h]
    have hshift : (c.val + ('a'.val - 'A'.val)).toNat = (c.toNat + 32) % 2 ^ 32 :=
      UInt32.toNat_add _ _
    exact hshift.trans (Nat.mod_eq_of_lt (by omega))
  · next h =>
    rw [hupper] at h
    rw [if_neg h]

theorem isBlank_toLower (c : Char) : isBlank c.toLower = isBlank c := by
  rw [Bool.eq_iff_iff]
  simp only [isBlank, toNat_toLower, Bool.or_eq_true, Bool.and_eq_true, decide_eq_true_eq,
    beq_iff_eq]
  -- no blank character is among the letters, upper or lower
  split <;> omega

theorem toLower_toLower (c : Char) : c.toLower.toLower = c.toLower := by
  apply Char.toNat_inj.mp
  have h := toNat_toLower c
  rw [toNat_toLower c.toLower, if_neg]
  split at h <;> omega

theorem trimEnds_map_toLower (cs : List Char) :
    trimEnds (cs.map Char.toLower) = (trimEnds cs).map Char.toLower := by
  have hblank : isBlank ∘ Char.toLower = isBlank := funext isBlank_toLower
  simp only [trimEnds, List.dropWhile_map, hblank, ← List.map_reverse]

end Text

theorem Language.parse?_empty : parse? "" = none := by decide

theorem Language.parse?_lowerAscii (text : String) :
    parse? (Text.lowerAscii text) = parse? text := by
  have h : Text.lowerAscii (Text.trim (Text.lowerAscii text)) =
      Text.lowerAscii (Text.trim text) := by
    simp only [Text.lowerAscii, Text.trim, String.toList_ofList, Text.trimEnds_map_toLower,
      List.map_map, Function.comp_def, Text.toLower_toLower]
  rw [parse?, h, parse?]

end Ecoa
