import Mathlib
import Typist.Injector.InputSender

/-!
# UTF-16 units

The second side of the units in which characters are sent: characters are read off units, where a
unit of the upper surrogates needs one of the lower surrogates behind it.
-/

namespace Typist.InputSender

/-- The characters of which these are the UTF-16 units, if they are those of characters. -/
def utf16? : List UInt16 → Option (List Char)
  | [] => some []
  | [u] => if u.toNat < 0xD800 ∨ 0xDFFF < u.toNat then some [.ofNat u.toNat] else none
  | u :: v :: us =>
    if u.toNat < 0xD800 ∨ 0xDFFF < u.toNat then (utf16? (v :: us)).map (.ofNat u.toNat :: ·)
    else if u.toNat < 0xDC00 ∧ 0xDC00 ≤ v.toNat ∧ v.toNat ≤ 0xDFFF then
      (utf16? us).map
        (.ofNat (0x10000 + (u.toNat - 0xD800) * 0x400 + (v.toNat - 0xDC00)) :: ·)
    else none

/-- A unit that is no surrogate is a character. -/
theorem utf16?_cons {u : UInt16} (h : u.toNat < 0xD800 ∨ 0xDFFF < u.toNat) (us : List UInt16) :
    utf16? (u :: us) = (utf16? us).map (.ofNat u.toNat :: ·) := by
  cases us with
  | nil => simp [utf16?, h]
  | cons v us => rw [utf16?, if_pos h]

/-- Two surrogates, an upper and a lower one, are a character. -/
theorem utf16?_pair {u v : UInt16} (hu : 0xD800 ≤ u.toNat ∧ u.toNat < 0xDC00)
    (hv : 0xDC00 ≤ v.toNat ∧ v.toNat ≤ 0xDFFF) (us : List UInt16) :
    utf16? (u :: v :: us) = (utf16? us).map
      (.ofNat (0x10000 + (u.toNat - 0xD800) * 0x400 + (v.toNat - 0xDC00)) :: ·) := by
  rw [utf16?, if_neg (by omega), if_pos ⟨hu.2, hv⟩]

/-- A character is read off its units, whatever stands behind them. -/
theorem utf16?_units_append (c : Char) (us : List UInt16) :
    utf16? (units c ++ us) = (utf16? us).map (c :: ·) := by
  have hvalid : c.toNat < 0xD800 ∨ 0xDFFF < c.toNat ∧ c.toNat < 0x110000 := c.valid
  have hback : Char.ofNat c.toNat = c := c.ofNat_toNat
  unfold units
  dsimp only
  split
  · next hsmall =>
    have hunit : c.toNat.toUInt16.toNat = c.toNat := UInt16.toNat_ofNat_of_lt' hsmall
    rw [List.singleton_append, utf16?_cons (by omega), hunit, hback]
  · next hlarge =>
    have hsize : UInt16.size = 0x10000 := rfl
    generalize hm : c.toNat - 0x10000 = m
    have hupper : (0xD800 + m / 0x400).toUInt16.toNat = 0xD800 + m / 0x400 :=
      UInt16.toNat_ofNat_of_lt' (by omega)
    have hlower : (0xDC00 + m % 0x400).toUInt16.toNat = 0xDC00 + m % 0x400 :=
      UInt16.toNat_ofNat_of_lt' (by omega)
    have hsum : 0x10000 + (0xD800 + m / 0x400 - 0xD800) * 0x400 + (0xDC00 + m % 0x400 - 0xDC00) =
        c.toNat := by omega
    show utf16? (_ :: _ :: us) = _
    rw [utf16?_pair (by omega) (by omega), hupper, hlower, hsum, hback]

/-- A text is read off the units of its characters. -/
theorem utf16?_flatMap_units (cs : List Char) : utf16? (cs.flatMap units) = some cs := by
  induction cs with
  | nil => rfl
  | cons c cs ih => rw [List.flatMap_cons, utf16?_units_append, ih, Option.map_some]

end Typist.InputSender
