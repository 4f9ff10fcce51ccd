-- SUMMARY: When an extended number in the range of double is shown with the right six digits.
import MachInspect.Proofs.Decimal.Formats
import MachInspect.Proofs.Value.General
import MachInspect.Proofs.Binary.Numbers
import MachInspect.Value.LongDouble

/-!
# Extended numbers in the range of `double`

The 64-bit mantissa of an x87 number is rounded to 53 bits before the number is rounded to six
significant digits. The text is right exactly when this first rounding does not move the number
across a decimal tie, nor past the largest numbers.
-/
namespace MachInspect.Value.LongDouble

open Decimal

variable {m n : ℕ} {k : ℤ} {negative : Bool}

/-- Sign and biased exponent in one word. -/
def signExponent (negative : Bool) (exponent : ℕ) : ℕ := (if negative then 0x8000 else 0) + exponent

/-- A slot of 16 bytes with an x87 number. -/
def slot (order : ByteOrder) (mantissa : UInt64) (negative : Bool) (exponent : ℕ)
    (padding : Bytes) : Bytes :=
  order.encode 8 mantissa.toNat ++ (order.encode 2 (signExponent negative exponent) ++ padding)

/-! ## Through 53 bits -/

theorem isNearest_53 (m : ℕ) : IsNearest (m * (2 : ℚ) ^ (-11 : ℤ)) (roundHalfEven m 2048) := by
  have hscale : (m : ℚ) * 2 ^ (-11 : ℤ) = m / (2048 : ℕ) := by norm_num [div_eq_mul_inv]
  rw [hscale]
  exact isNearest_roundHalfEven (by decide)

/-- The mantissa with 53 bits. -/
theorem round_mantissa (hlower : 2 ^ 63 ≤ m) (hupper : m < 2 ^ 64) :
    binary64.round false m 0 = binary64.settled false (roundHalfEven m 2048) 11 ∧
      2 ^ 52 ≤ roundHalfEven m 2048 ∧ roundHalfEven m 2048 ≤ 2 ^ 53 := by
  have hm : m ≠ 0 := by omega
  have hlog : Nat.log2 m = 63 := by
    have := (Nat.le_log2 hm).2 hlower
    have := (Nat.log2_lt hm).2 hupper
    omega
  have hlast : binary64.lastExponent m 0 = 11 := by
    rw [Format.lastExponent, hlog]
    rfl
  obtain ⟨n, hnearest, hle, hnormal, hround⟩ :=
    Format.round_spec Format.proper_binary64 false hm 0
  rw [hlast] at hnearest hnormal hround
  obtain rfl : n = roundHalfEven m 2048 := hnearest.unique (isNearest_53 m)
  exact ⟨hround, hnormal.resolve_left (by decide), hle⟩

/-- The number that is shown: the rounded mantissa at the exponent, or an infinity. -/
theorem shifted_fraction (hlower : 2 ^ 63 ≤ m) (hupper : m < 2 ^ 64) (hk : -1022 ≤ k)
    (negative : Bool) :
    shifted (fraction m) k negative =
      binary64.settled negative (roundHalfEven m 2048) (k - 52) := by
  obtain ⟨hround, hge, hle⟩ := round_mantissa hlower hupper
  have hmin : binary64.minExponent = -1074 := rfl
  rw [fraction, hround, Format.settled, Format.settled]
  by_cases hcarry : roundHalfEven m 2048 = 2 ^ binary64.precision
  · simp only [hcarry, if_true]
    rw [if_neg (by decide)]
    simp only [shifted]
    rw [Format.round_of_normal Format.proper_binary64 negative (by decide) (by decide) (by omega)
      (.inr (le_refl _))]
    congr 2 <;> omega
  · simp only [hcarry, if_false]
    rw [if_neg (by decide)]
    simp only [shifted]
    have hlt : roundHalfEven m 2048 < 2 ^ binary64.precision := lt_of_le_of_ne hle hcarry
    rw [Format.round_of_normal Format.proper_binary64 negative (by omega) hlt (by omega) (.inr hge)]
    congr 2 <;> omega

/-- The rounded mantissa leaves the range only next to the largest numbers. -/
theorem settled_eq_infinite_iff (negative : Bool) (hupper : m < 2 ^ 64) (hk : k ≤ 1023) :
    binary64.settled negative (roundHalfEven m 2048) (k - 52) = .infinite negative ↔
      k = 1023 ∧ 2 ^ 64 - 2 ^ 10 ≤ m := by
  have hcarry : roundHalfEven m 2048 = 2 ^ 53 ↔ 2 ^ 64 - 2 ^ 10 ≤ m := by
    simp only [roundHalfEven]
    split
    · omega
    split <;> omega
  have hprecision : binary64.precision = 53 := rfl
  have hmax : binary64.maxExponent = 971 := by decide
  rw [Format.settled, hprecision, hmax]
  split
  · rename_i hfull
    split
    · exact iff_of_true rfl ⟨by omega, hcarry.1 hfull⟩
    · exact iff_of_false (by simp) (by omega)
  · rename_i hfull
    rw [if_neg (by omega)]
    exact iff_of_false (by simp) (fun h => hfull (hcarry.2 h.2))

/-- What is not infinite is shown as the rounded mantissa at its exponent, in six digits. -/
theorem exists_shows_settled (hn : n ≠ 0)
    (hfinite : binary64.settled negative n k ≠ .infinite negative) :
    ∃ r, RoundsTo 6 (n * (2 : ℚ) ^ k) r ∧
      Shows (Floating.general (binary64.settled negative n k)).toList negative r := by
  rw [Format.settled] at hfinite ⊢
  split
  · rename_i hcarry
    rw [if_pos hcarry] at hfinite
    rw [if_neg (fun h => hfinite (if_pos h))]
    have hvalue : (n : ℚ) * 2 ^ k = ((2 ^ (binary64.precision - 1) : ℕ) : ℚ) * 2 ^ (k + 1) := by
      rw [hcarry, Format.proper_binary64.pow_precision, zpow_add_one₀ two_ne_zero]
      push_cast
      ring
    rw [hvalue]
    exact Floating.exists_shows_general negative (by decide) (k + 1)
  · rename_i hcarry
    rw [if_neg hcarry] at hfinite
    rw [if_neg (fun h => hfinite (if_pos h))]
    exact Floating.exists_shows_general negative hn k

/-- A mantissa of 53 bits is kept. -/
theorem value_of_dvd (hdvd : 2048 ∣ m) (k : ℤ) :
    (roundHalfEven m 2048 : ℚ) * 2 ^ (k - 52) = m * 2 ^ (k - 63) := by
  obtain ⟨n, rfl⟩ := hdvd
  have hexact : roundHalfEven (2048 * n) 2048 = n := by simp [roundHalfEven]
  have hexponent : k - 52 = k - 63 + (11 : ℕ) := by omega
  rw [hexact, hexponent, zpow_add₀ two_ne_zero, zpow_natCast]
  push_cast
  ring

/-! ## Texts -/

theorem toList_general_infinite (negative : Bool) :
    (Floating.general (.infinite negative)).toList = sign negative ++ ['i', 'n', 'f'] := by
  cases negative <;> rfl

theorem not_shows_infinite (negative : Bool) (r : ℚ) :
    ¬ Shows (sign negative ++ ['i', 'n', 'f']) negative r := by
  have hnone : denotes? (sign negative ++ ['i', 'n', 'f']) = none := by cases negative <;> rfl
  intro h
  have hdenotes := h.denotes
  rw [hnone] at hdenotes
  cases hdenotes

/-- The parts of a slot are read back in either byte order. -/
theorem text_slot (order : ByteOrder) (mantissa : UInt64) {exponent : ℕ} {padding : Bytes}
    (hpadding : padding.length = 6) (hexponent : exponent < 0x8000) :
    text .x87 order (slot order mantissa negative exponent padding) =
      x87 mantissa.toNat (signExponent negative exponent) := by
  have hword : signExponent negative exponent < 256 ^ 2 := by
    rw [signExponent]
    split <;> omega
  have hfirst : order.value ((slot order mantissa negative exponent padding).take 8) =
      mantissa.toNat := by
    rw [slot, List.take_left' (by simp), ByteOrder.value_encode]
    exact mantissa.toNat_lt
  have hsecond : order.value (((slot order mantissa negative exponent padding).drop 8).take 2) =
      signExponent negative exponent := by
    rw [slot, List.drop_left' (by simp), List.take_left' (by simp),
      ByteOrder.value_encode _ _ _ hword]
  have hlength : (slot order mantissa negative exponent padding).length = 16 := by
    simp [slot, hpadding]
  rw [text, textBy, if_pos hlength, ← hfirst, ← hsecond]
  rfl

theorem x87_of_range {exponent : ℕ} (hmantissa : 2 ^ 63 ≤ m) (hlt : m < 2 ^ 64)
    (hlower : -1022 ≤ (exponent : ℤ) - 16383) (hupper : (exponent : ℤ) - 16383 ≤ 1023) :
    x87 m (signExponent negative exponent) =
      Floating.general (binary64.settled negative (roundHalfEven m 2048)
        (exponent - 16383 - 52)) := by
  have hbit : signExponent negative exponent / 0x8000 % 2 = if negative then 1 else 0 := by
    rw [signExponent]
    split <;> omega
  have hsign : ((if negative then 1 else 0) == 1) = negative := by cases negative <;> rfl
  have hexponent : signExponent negative exponent % 0x8000 = exponent := by
    rw [signExponent]
    split <;> omega
  have hne : exponent ≠ 0x7fff := by omega
  have hpos : exponent ≠ 0 := by omega
  have hzero : m ≠ 0 := by omega
  simp only [x87, hexponent, hbit, hsign, hne, hpos, hzero, hlower, hupper, if_false, if_true,
    and_self]
  rw [shifted_fraction hmantissa hlt hlower]

/-- An x87 number in the range of `double` is shown with its six digits if and only if its mantissa
rounded to 53 bits stays in range and has the same six digits; it is shown as infinite exactly next
to the largest numbers, and mantissas of 53 bits are always shown right. -/
theorem extended_shown_right_iff (order : ByteOrder) (mantissa : UInt64) (negative : Bool)
    (exponent : ℕ) (padding : Bytes) (hpadding : padding.length = 6)
    (hmantissa : 2 ^ 63 ≤ mantissa.toNat) (hlower : -1022 ≤ (exponent : ℤ) - 16383)
    (hupper : (exponent : ℤ) - 16383 ≤ 1023) :
    ∃ r, RoundsTo 6 (mantissa.toNat * (2 : ℚ) ^ ((exponent : ℤ) - 16383 - 63)) r ∧
      (Shows (text .x87 order (slot order mantissa negative exponent padding)).toList negative r ↔
        ¬ (exponent = 16383 + 1023 ∧ 2 ^ 64 - 2 ^ 10 ≤ mantissa.toNat) ∧
          RoundsTo 6 (roundHalfEven mantissa.toNat 2048 *
            (2 : ℚ) ^ ((exponent : ℤ) - 16383 - 52)) r) ∧
      ((text .x87 order (slot order mantissa negative exponent padding)).toList =
          sign negative ++ ['i', 'n', 'f'] ↔
        exponent = 16383 + 1023 ∧ 2 ^ 64 - 2 ^ 10 ≤ mantissa.toNat) ∧
      (2048 ∣ mantissa.toNat →
        Shows (text .x87 order (slot order mantissa negative exponent padding)).toList
          negative r) := by
  obtain ⟨r, hr, -⟩ := Floating.exists_shows_general negative (show mantissa.toNat ≠ 0 by omega)
    ((exponent : ℤ) - 16383 - 63)
  have hlt := mantissa.toNat_lt
  obtain ⟨-, hge, -⟩ := round_mantissa hmantissa hlt
  have hinfinite := settled_eq_infinite_iff negative hlt hupper
  have hedge : (exponent : ℤ) - 16383 = 1023 ↔ exponent = 16383 + 1023 := by omega
  rw [hedge] at hinfinite
  refine ⟨r, hr, ?_⟩
  rw [text_slot order mantissa hpadding (by omega), x87_of_range hmantissa hlt hlower hupper]
  by_cases hover : exponent = 16383 + 1023 ∧ 2 ^ 64 - 2 ^ 10 ≤ mantissa.toNat
  · rw [hinfinite.2 hover, toList_general_infinite]
    refine ⟨iff_of_false (not_shows_infinite negative r) (fun h => h.1 hover),
      iff_of_true rfl hover, fun hdvd => ?_⟩
    omega
  · obtain ⟨r', hr', hshows⟩ := exists_shows_settled
      (show roundHalfEven mantissa.toNat 2048 ≠ 0 by omega) (mt hinfinite.1 hover)
    refine ⟨⟨fun h => ⟨hover, hshows.unique h ▸ hr'⟩, fun h => hr'.unique h.2 ▸ hshows⟩,
      iff_of_false (fun h => not_shows_infinite negative r' (h ▸ hshows)) hover, fun hdvd => ?_⟩
    rw [value_of_dvd hdvd] at hr'
    exact hr'.unique hr ▸ hshows

/-- The number -100000.5 is a tie that 53 bits hold, and goes to the even neighbour. -/
theorem extended_tie_shown_right :
    text .x87 .big (slot .big 0xc350400000000000 true 0x400f [1, 2, 3, 4, 5, 6]) = "-100000" ∧
      ∃ r, RoundsTo 6 (0xc350400000000000 * (2 : ℚ) ^ (-47 : ℤ)) r ∧
        Shows "-100000".toList true r := by
  have htext : text .x87 .big (slot .big 0xc350400000000000 true 0x400f [1, 2, 3, 4, 5, 6]) =
      "-100000" := by decide +kernel
  obtain ⟨r, hr, -, -, hshows⟩ := extended_shown_right_iff .big 0xc350400000000000 true 0x400f
    [1, 2, 3, 4, 5, 6] rfl (by decide) (by decide) (by decide)
  exact ⟨htext, r, hr, htext ▸ hshows (by decide)⟩

/-- A finite number is shown as infinite, and a number above the tie 100000.5 is rounded down:
the six digits are those of 1.79769e+308 and of 100001. -/
theorem extended_shown_wrong :
    (text .x87 .little (slot .little 0xffffffffffffffff false 0x43fe [0, 0, 0, 0, 0, 0]) = "inf" ∧
      ∃ r, RoundsTo 6 (0xffffffffffffffff * (2 : ℚ) ^ (960 : ℤ)) r ∧
        Shows "1.79769e+308".toList false r ∧ ¬ Shows "inf".toList false r) ∧
    (text .x87 .little (slot .little 0xc350400000000001 false 0x400f [0, 0, 0, 0, 0, 0]) =
        "100000" ∧
      ∃ r, RoundsTo 6 (0xc350400000000001 * (2 : ℚ) ^ (-47 : ℤ)) r ∧
        Shows "100001".toList false r ∧ ¬ Shows "100000".toList false r) := by
  have hlarge : Floating.general (.finite false 0xffffffffffffffff 960) = "1.79769e+308" := by
    decide +kernel
  have htie : Floating.general (.finite false 0xc350400000000001 (-47)) = "100001" := by
    decide +kernel
  obtain ⟨r, hr, hshows⟩ := Floating.exists_shows_general false
    (show 0xffffffffffffffff ≠ 0 by decide) 960
  obtain ⟨r', hr', hshows'⟩ := Floating.exists_shows_general false
    (show 0xc350400000000001 ≠ 0 by decide) (-47)
  rw [hlarge] at hshows
  rw [htie] at hshows'
  refine ⟨⟨by decide +kernel, r, hr, hshows, fun h => ?_⟩,
    by decide +kernel, r', hr', hshows', fun h => ?_⟩
  · exact not_shows_infinite false r h
  · have hdown := denotes?_of_isDigits (show IsDigits "100000".toList by decide) (by simp)
    have hup := denotes?_of_isDigits (show IsDigits "100001".toList by decide) (by simp)
    rw [h.denotes] at hdown
    rw [hshows'.denotes, hdown] at hup
    simp only [Option.some_inj, Prod.mk.injEq, Nat.cast_inj, true_and] at hup
    exact absurd hup (by decide)

end MachInspect.Value.LongDouble
