import Mathlib.Data.List.Basic

/-!
# The case of letters

Making letters of ASCII small or capital, told by code points.
-/

namespace Typist.Text

theorem toNat_toUpper (c : Char) :
    c.toUpper.toNat = if 97 ≤ c.toNat ∧ c.toNat ≤ 122 then c.toNat - 32 else c.toNat := by
  have hsmall : ('a'.val ≤ c.val ∧ c.val ≤ 'z'.val) ↔ (97 ≤ c.toNat ∧ c.toNat ≤ 122) :=
    and_congr UInt32.le_iff_toNat_le UInt32.le_iff_toNat_le
  unfold Char.toUpper
  split
  · next h =>
    have hnat : 97 ≤ c.val.toNat ∧ c.val.toNat ≤ 122 := hsmall.mp h
    have hd : ('A'.val - 'a'.val).toNat = 4294967264 := rfl
    rw [if_pos (hsmall.mp h)]
    show (c.val + ('A'.val - 'a'.val)).toNat = c.val.toNat - 32
    rw [UInt32.toNat_add, hd]
    omega
  · next h => rw [if_neg (mt hsmall.mpr h)]

theorem toNat_toLower (c : Char) :
    c.toLower.toNat = if 65 ≤ c.toNat ∧ c.toNat ≤ 90 then c.toNat + 32 else c.toNat := by
  have hcapital : ('A'.val ≤ c.val ∧ c.val ≤ 'Z'.val) ↔ (65 ≤ c.toNat ∧ c.toNat ≤ 90) :=
    and_congr UInt32.le_iff_toNat_le UInt32.le_iff_toNat_le
  unfold Char.toLower
  split
  · next h =>
    have hnat : 65 ≤ c.val.toNat ∧ c.val.toNat ≤ 90 := hcapital.mp h
    have hd : ('a'.val - 'A'.val).toNat = 32 := rfl
    rw [if_pos (hcapital.mp h)]
    show (c.val + ('a'.val - 'A'.val)).toNat = c.val.toNat + 32
    rw [UInt32.toNat_add, hd]
    omega
  · next h => rw [if_neg (mt hcapital.mpr h)]

theorem toUpper_toUpper (c : Char) : c.toUpper.toUpper = c.toUpper := by
  rw [← Char.toNat_inj, toNat_toUpper, toNat_toUpper]
  by_cases h : 97 ≤ c.toNat ∧ c.toNat ≤ 122
  · rw [if_pos h]
    split <;> omega
  · rw [if_neg h, if_neg h]

theorem toLower_toUpper (c : Char) : c.toUpper.toLower = c.toLower := by
  rw [← Char.toNat_inj, toNat_toLower, toNat_toLower, toNat_toUpper]
  by_cases h : 97 ≤ c.toNat ∧ c.toNat ≤ 122
  · rw [if_pos h]
    split <;> split <;> omega
  · rw [if_neg h]

/-- A letter and its capital are one byte each. -/
theorem utf8Size_toUpper (c : Char) : c.toUpper.utf8Size = c.utf8Size := by
  have hone {d : Char} (h : d.toNat ≤ 127) : d.utf8Size = 1 :=
    Char.utf8Size_eq_one_iff.mpr (UInt32.le_iff_toNat_le.mpr h)
  by_cases h : 97 ≤ c.toNat ∧ c.toNat ≤ 122
  · have hupper := toNat_toUpper c
    rw [if_pos h] at hupper
    rw [hone (by omega), hone (by omega)]
  · rw [Char.toNat_inj.mp ((toNat_toUpper c).trans (if_neg h))]

end Typist.Text
