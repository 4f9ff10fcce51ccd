-- SUMMARY: Six significant digits: what is shown is the number rounded once, in the general style.
import MachInspect.Proofs.Decimal.Significant
import MachInspect.Value.Floating

/-!
# Six significant digits

A number that is not zero is shown as its value rounded to six significant digits. The decimal
exponent of the rounded value decides between the two layouts, and the positional one rounds the
number again, with the same result.
-/
namespace MachInspect.Value.Floating

open Decimal

theorem toList_signText_append (negative : Bool) (cs : List Char) :
    (signText negative ++ String.ofList cs).toList = sign negative ++ cs := by
  cases negative <;> simp [signText, sign]

/-- The digits that are rounded first, and the grid on which they are nearest. -/
theorem six_digits {mantissa : ℕ} (hmantissa : mantissa ≠ 0) (exponent : ℤ) :
    ∃ (c : ℕ) (d : Char) (rest : List Char) (x : ℤ),
      significant 6 (.ofBinary mantissa exponent) = ⟨d :: rest, x⟩ ∧
      IsDigits (d :: rest) ∧ d ≠ '0' ∧ Scientific.value ⟨d :: rest, x⟩ = c * 10 ^ (x - 5) ∧
      IsNearest ((Ratio.ofBinary mantissa exponent).value * 10 ^ (5 - x)) c ∧
      RoundsTo 6 (mantissa * (2 : ℚ) ^ exponent) (c * 10 ^ (x - 5)) ∧
      Int.log 10 ((c : ℚ) * 10 ^ (x - 5)) = x := by
  have hvalue := Ratio.value_ofBinary mantissa exponent
  have hnum : 0 < (Ratio.ofBinary mantissa exponent).num := by
    refine Ratio.num_pos_of_value_pos ?_
    rw [hvalue]
    positivity
  obtain ⟨c, x, hs, hlower, hupper, hnearest, hrounds⟩ :=
    significant_spec (show 0 < 6 by decide) hnum (Ratio.den_ofBinary_pos mantissa exponent)
  obtain ⟨d, rest, hdigits, hd, hlength⟩ := exists_toDigits_eq_cons (k := 5) hlower hupper
  have hall : IsDigits (d :: rest) := hdigits ▸ isDigits_toDigits c
  have hcoefficient : Scientific.value ⟨d :: rest, x⟩ = c * 10 ^ (x - 5) := by
    rw [Scientific.value_cons, ← hdigits, Nat.ofDigitChars_ten_toDigits, hlength]
    rfl
  have hlog := log_ofDigitChars hall hd x
  rw [← Scientific.value_cons, hcoefficient] at hlog
  rw [hdigits] at hs
  rw [hvalue] at hrounds
  exact ⟨c, d, rest, x, hs, hall, hd, hcoefficient, hnearest, hrounds, hlog⟩

/-- A number that is not zero is shown in the general style, rounded to six significant digits. -/
theorem exists_shows_general (negative : Bool) {mantissa : ℕ} (hmantissa : mantissa ≠ 0)
    (exponent : ℤ) :
    ∃ r, RoundsTo 6 (mantissa * (2 : ℚ) ^ exponent) r ∧
      Shows (general (.finite negative mantissa exponent)).toList negative r := by
  obtain ⟨c, d, rest, x, hs, hdigits, hd, hvalue, hnearest, hrounds, hlog⟩ :=
    six_digits hmantissa exponent
  refine ⟨_, hrounds, ?_⟩
  rw [general, if_neg hmantissa]
  simp only [hs]
  split
  · rename_i hpositional
    rw [toList_signText_append]
    exact shows_fixed negative (Ratio.den_ofBinary_pos mantissa exponent) hnearest hlog
      ((isPositional_iff x).1 hpositional)
  · rename_i hscientific
    rw [toList_signText_append, ← hvalue]
    exact shows_pointed negative hdigits hd (mt (isPositional_iff x).2 hscientific)

/-- The digits that were rounded first denote what is shown. -/
theorem denotes?_exponential_significant {mantissa : ℕ} (hmantissa : mantissa ≠ 0) (exponent : ℤ)
    {r : ℚ} (hr : RoundsTo 6 (mantissa * (2 : ℚ) ^ exponent) r) :
    denotes? (significant 6 (.ofBinary mantissa exponent)).exponential = some (false, r) := by
  obtain ⟨c, d, rest, x, hs, hdigits, -, hvalue, -, hrounds, -⟩ := six_digits hmantissa exponent
  rw [hs, hr.unique hrounds, ← hvalue]
  exact Scientific.denotes?_pointed hdigits false (isMark_markOf x).value

/-- Rounding the number again, at the places that the exponent leaves, denotes it as well. -/
theorem denotes?_fixed {mantissa : ℕ} (hmantissa : mantissa ≠ 0) (exponent : ℤ) {r : ℚ}
    (hr : RoundsTo 6 (mantissa * (2 : ℚ) ^ exponent) r) (hplaces : Int.log 10 r ≤ 5) :
    denotes? (fixed (5 - Int.log 10 r).toNat (.ofBinary mantissa exponent)) = some (false, r) := by
  obtain ⟨c, d, rest, x, -, -, -, -, hnearest, hrounds, hlog⟩ := six_digits hmantissa exponent
  obtain rfl := hr.unique hrounds
  rw [hlog] at hplaces ⊢
  obtain ⟨whole, fraction, hfixed, hwhole, hne, hfraction, hlength, -, hrounded⟩ :=
    fixed_spec (5 - x).toNat (Ratio.den_ofBinary_pos mantissa exponent)
  have hcast : ((5 - x).toNat : ℤ) = 5 - x := Int.toNat_of_nonneg (by omega)
  rw [hcast] at hrounded
  have hdenotes := denotes?_written hwhole hne hfraction false none (x := 0) rfl
  rw [written_none, hrounded.unique hnearest, hlength, hcast, ← hfixed, zero_sub,
    neg_sub] at hdenotes
  exact hdenotes

/-- A `double` that is finite and not zero is shown as its exact value rounded to six significant
digits, in the general style and with its sign. The digits with an exponent denote the same number,
and so does the number rounded at the places that its decimal exponent leaves. -/
theorem shown_rounded_to_six_digits (bits : UInt64) {negative : Bool} {mantissa : ℕ} {exponent : ℤ}
    (hbits : binary64.decode bits.toNat = .finite negative mantissa exponent)
    (hmantissa : mantissa ≠ 0) :
    ∃ r, RoundsTo 6 (mantissa * (2 : ℚ) ^ exponent) r ∧
      Shows (general (binary64.decode bits.toNat)).toList negative r ∧
      denotes? (significant 6 (.ofBinary mantissa exponent)).exponential = some (false, r) ∧
      (Int.log 10 r ≤ 5 → denotes? (fixed (5 - Int.log 10 r).toNat (.ofBinary mantissa exponent)) =
        some (false, r)) := by
  obtain ⟨r, hr, hshows⟩ := exists_shows_general negative hmantissa exponent
  rw [hbits]
  exact ⟨r, hr, hshows, denotes?_exponential_significant hmantissa exponent hr,
    denotes?_fixed hmantissa exponent hr⟩

/-- The number -99999.96, whose rounding carries into a new digit. -/
theorem carry_rounded_to_six_digits :
    general (binary64.decode (0xc0f869ff5c28f5c3 : UInt64).toNat) = "-100000" ∧
      ∃ r, RoundsTo 6 (6871944924820931 * (2 : ℚ) ^ (-36 : ℤ)) r ∧
        Shows (general (binary64.decode (0xc0f869ff5c28f5c3 : UInt64).toNat)).toList true r ∧
        denotes? (significant 6 (.ofBinary 6871944924820931 (-36))).exponential = some (false, r) ∧
        (Int.log 10 r ≤ 5 → denotes? (fixed (5 - Int.log 10 r).toNat
          (.ofBinary 6871944924820931 (-36))) = some (false, r)) :=
  ⟨by decide +kernel, shown_rounded_to_six_digits 0xc0f869ff5c28f5c3 (by decide) (by decide)⟩

end MachInspect.Value.Floating
