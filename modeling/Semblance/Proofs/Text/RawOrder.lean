import Mathlib.Data.List.Basic
import Mathlib.Data.String.Basic
import Semblance.Text.Raw

/-!
# The order of names

Names are ordered by the numbers of their characters, one after the other.  This is a linear order, and on texts without
stray bytes it is that of strings (`RawText.ofString_lt_ofString_iff`).
-/

namespace Semblance

namespace RawChar

/-- The number of a stray byte is that of no character. -/
private theorem toNat_ne_code_stray (c : Char) (b : Fin 128) : c.toNat ≠ (stray b).code := by
  have hvalid := c.valid
  simp only [UInt32.isValidChar, Nat.isValidChar] at hvalid
  change c.val.toNat ≠ 0xDC80 + b
  omega

theorem code_injective : Function.Injective code := by
  rintro (c | b) (c' | b') h
  · exact congrArg char (Char.toNat_inj.1 h)
  · exact absurd h (toNat_ne_code_stray c b')
  · exact absurd h.symm (toNat_ne_code_stray c' b)
  · exact congrArg stray (Fin.ext (Nat.add_left_cancel h))

instance : Std.Asymm (α := RawChar) (· < ·) :=
  ⟨fun _ _ => Nat.lt_asymm⟩

instance : Std.Trichotomous (α := RawChar) (· < ·) :=
  ⟨fun _ _ h h' => code_injective (Nat.le_antisymm (Nat.not_lt.1 h') (Nat.not_lt.1 h))⟩

instance : Trans (α := RawChar) (· < ·) (· < ·) (· < ·) :=
  ⟨Nat.lt_trans⟩

end RawChar

instance : LinearOrder RawText where
  le_refl := List.le_refl
  le_trans a b c hab hbc := by
    rcases List.le_iff_lt_or_eq.1 hab with hab | rfl
    · rcases List.le_iff_lt_or_eq.1 hbc with hbc | rfl
      · exact List.le_of_lt (List.lt_trans hab hbc)
      · exact List.le_of_lt hab
    · exact hbc
  lt_iff_le_not_ge _ _ := ⟨fun h => ⟨List.le_of_lt h, fun hle => hle h⟩, fun h => List.not_le.1 h.2⟩
  le_antisymm _ _ := List.le_antisymm
  le_total := List.le_total
  toDecidableLE := inferInstance

/-- Texts without stray bytes are ordered as strings. -/
theorem RawText.ofString_lt_ofString_iff {s t : String} : ofString s < ofString t ↔ s < t := by
  have hlt {s t : String} (h : s < t) : ofString s < ofString t :=
    List.map_lt (fun _ _ hc => hc) (String.lt_iff_toList_lt.1 h)
  refine ⟨fun h => ?_, hlt⟩
  by_contra hle
  rcases lt_or_eq_of_le (not_lt.1 hle) with hts | rfl
  · exact lt_asymm h (hlt hts)
  · exact lt_irrefl _ h

end Semblance
