-- SUMMARY: Rounding on decimal grids, as statements about rational numbers.
import Mathlib.Algebra.Order.Field.Power
import Mathlib.Algebra.Order.Round
import Mathlib.Data.Int.Log
import Mathlib.Data.Rat.Floor
import Mathlib.Tactic.FieldSimp
import Mathlib.Tactic.Linarith
import Mathlib.Tactic.NormNum
import Mathlib.Tactic.Positivity
import Mathlib.Tactic.Ring
import MachInspect.Decimal.Rounding

/-!
# Decimal grids over the rationals

A ratio stands for a rational number. Scaling multiplies it by a power, `roundHalfEven` gives the
nearest integer and of two the even one, and `exponentOf` is the integer part of the decimal
logarithm. What "rounded to some significant digits" means is stated here without the program's own
functions.
-/
namespace MachInspect.Decimal

/-! ## Ratios -/

namespace Ratio

variable {r : Ratio} {base : ℕ}

/-- The rational number that a ratio stands for. -/
def value (r : Ratio) : ℚ := r.num / r.den

theorem den_scale_pos (hden : 0 < r.den) (hbase : 0 < base) (k : ℤ) :
    0 < (r.scale base k).den := by
  rw [scale]
  split
  · exact hden
  · exact Nat.mul_pos hden (Nat.pow_pos hbase)

theorem value_scale (hbase : 0 < base) (k : ℤ) (r : Ratio) :
    (r.scale base k).value = r.value * (base : ℚ) ^ k := by
  have hne : (base : ℚ) ≠ 0 := by exact_mod_cast hbase.ne'
  rw [scale]
  split
  · rename_i hk
    obtain ⟨n, rfl⟩ := Int.eq_ofNat_of_zero_le hk
    simp only [value, Int.toNat_natCast, zpow_natCast]
    push_cast
    ring
  · rename_i hk
    obtain ⟨n, hn⟩ := Int.eq_ofNat_of_zero_le (show 0 ≤ -k by omega)
    obtain rfl : k = -(n : ℤ) := by omega
    simp only [value, neg_neg, Int.toNat_natCast, zpow_neg, zpow_natCast]
    push_cast
    rw [div_mul_eq_div_div, div_eq_mul_inv _ ((base : ℚ) ^ n)]

theorem den_ofBinary_pos (mantissa : ℕ) (exponent : ℤ) : 0 < (ofBinary mantissa exponent).den :=
  den_scale_pos Nat.one_pos Nat.two_pos _

theorem value_ofBinary (mantissa : ℕ) (exponent : ℤ) :
    (ofBinary mantissa exponent).value = mantissa * (2 : ℚ) ^ exponent := by
  rw [ofBinary, value_scale Nat.two_pos]
  simp [value]

theorem num_pos_of_value_pos (h : 0 < r.value) : 0 < r.num := by
  rcases Nat.eq_zero_or_pos r.num with hzero | hpos
  · simp [value, hzero] at h
  · exact hpos

end Ratio

/-! ## The nearest integer -/

/-- `n` is at most a half away from `q`, and is even if it is exactly a half away. -/
structure IsNearest (q : ℚ) (n : ℕ) : Prop where
  near : |q - n| ≤ 1 / 2
  even : |q - n| = 1 / 2 → Even n

theorem IsNearest.unique {q : ℚ} {n k : ℕ} (hn : IsNearest q n) (hk : IsNearest q k) : n = k := by
  have hnear := abs_le.1 hn.near
  have hnear' := abs_le.1 hk.near
  -- Two different integers that are both within a half are neighbours, with `q` in the middle.
  have hneighbours {a b : ℕ} (ha : IsNearest q a) (hb : IsNearest q b) (hlt : a < b) : False := by
    have hle : (a : ℚ) + 1 ≤ b := by exact_mod_cast hlt
    have hupper := (abs_le.1 ha.near).2
    have hlower := (abs_le.1 hb.near).1
    have hsum : (b : ℚ) = ((a + 1 : ℕ) : ℚ) := by push_cast; linarith
    have hnext : b = a + 1 := by exact_mod_cast hsum
    have heven : Even a := ha.even (by rw [abs_of_nonneg] <;> linarith)
    have heven' : Even b := hb.even (by rw [abs_of_nonpos] <;> linarith)
    rw [hnext, Nat.even_add_one] at heven'
    exact heven' heven
  rcases Nat.lt_trichotomy n k with hlt | heq | hgt
  · exact (hneighbours hn hk hlt).elim
  · exact heq
  · exact (hneighbours hk hn hgt).elim

theorem IsNearest.le_of_le {q : ℚ} {c : ℕ} (h : IsNearest q c) {a : ℕ} (ha : (a : ℚ) ≤ q) :
    a ≤ c := by
  have hlower := (abs_le.1 h.near).2
  have hlt : (a : ℚ) < ((c + 1 : ℕ) : ℚ) := by push_cast; linarith
  have : a < c + 1 := by exact_mod_cast hlt
  omega

theorem IsNearest.le_of_ge {q : ℚ} {c : ℕ} (h : IsNearest q c) {b : ℕ} (hb : q ≤ b) : c ≤ b := by
  have hupper := (abs_le.1 h.near).1
  have hlt : (c : ℚ) < ((b + 1 : ℕ) : ℚ) := by push_cast; linarith
  have : c < b + 1 := by exact_mod_cast hlt
  omega

/-- Next to a power of ten, the grid that is ten times coarser has the same nearest point. -/
theorem IsNearest.coarser {q : ℚ} {k : ℕ} (h : IsNearest q (10 * k)) : IsNearest (q / 10) k := by
  have hnear := abs_le.1 h.near
  push_cast at hnear
  have hlt : |q / 10 - k| < 1 / 2 := abs_lt.2 ⟨by linarith, by linarith⟩
  exact ⟨hlt.le, fun heq => absurd heq hlt.ne⟩

theorem isNearest_natCast (n : ℕ) : IsNearest n n where
  near := by norm_num
  even h := by norm_num at h

section Halves

variable {k : ℕ} {t : ℚ}

theorem isNearest_below (hnonneg : 0 ≤ t) (hlt : t < 1 / 2) : IsNearest (k + t) k := by
  have hdistance : |(k : ℚ) + t - k| = t := by rw [add_sub_cancel_left, abs_of_nonneg hnonneg]
  exact ⟨by rw [hdistance]; exact hlt.le, fun h => absurd (hdistance.symm.trans h) hlt.ne⟩

theorem isNearest_above (hlt : 1 / 2 < t) (hone : t < 1) : IsNearest (k + t) (k + 1) := by
  have hdistance : |(k : ℚ) + t - (k + 1 : ℕ)| = 1 - t := by
    push_cast
    rw [abs_of_nonpos] <;> linarith
  exact ⟨by rw [hdistance]; linarith, fun h => by rw [hdistance] at h; linarith⟩

theorem isNearest_half (k : ℕ) : IsNearest (k + 1 / 2) (k + k % 2) := by
  refine ⟨?_, fun _ => ?_⟩
  · rcases Nat.mod_two_eq_zero_or_one k with h | h <;> rw [h] <;> push_cast
    · rw [abs_of_nonneg] <;> linarith
    · rw [abs_of_nonpos] <;> linarith
  · rw [Nat.even_iff]
    omega

end Halves

theorem isNearest_roundHalfEven {num den : ℕ} (hden : 0 < den) :
    IsNearest ((num : ℚ) / den) (roundHalfEven num den) := by
  have hpos : (0 : ℚ) < den := by exact_mod_cast hden
  obtain ⟨t, ht⟩ : ∃ t : ℚ, t = (num % den : ℕ) / den := ⟨_, rfl⟩
  have hq : (num : ℚ) / den = (num / den : ℕ) + t := by
    have hdivision : ((den * (num / den) + num % den : ℕ) : ℚ) = num := by rw [Nat.div_add_mod]
    rw [ht, ← hdivision]
    push_cast
    field_simp
  have hlt : t < 1 := by
    rw [ht, div_lt_one hpos]
    exact_mod_cast Nat.mod_lt num hden
  have hbelow : 2 * (num % den) < den ↔ t < 1 / 2 := by
    rw [ht, div_lt_iff₀ hpos, ← Nat.cast_lt (α := ℚ), Nat.cast_mul, Nat.cast_two]
    constructor <;> intro h <;> linarith
  have habove : den < 2 * (num % den) ↔ 1 / 2 < t := by
    rw [ht, lt_div_iff₀ hpos, ← Nat.cast_lt (α := ℚ), Nat.cast_mul, Nat.cast_two]
    constructor <;> intro h <;> linarith
  rw [hq, roundHalfEven]
  split
  · rename_i hless
    exact isNearest_below (by rw [ht]; positivity) (hbelow.1 hless)
  split
  · rename_i hmore
    exact isNearest_above (habove.1 hmore) hlt
  · rename_i hle hge
    have hhalf : t = 1 / 2 := le_antisymm (not_lt.1 (mt habove.2 hge)) (not_lt.1 (mt hbelow.2 hle))
    rw [hhalf]
    exact isNearest_half _

theorem Ratio.isNearest {r : Ratio} (hden : 0 < r.den) :
    IsNearest r.value (roundHalfEven r.num r.den) :=
  isNearest_roundHalfEven hden

/-! ## Decimal exponents -/

theorem log_eq_of_le_of_lt {q : ℚ} {x : ℤ} (hle : (10 : ℚ) ^ x ≤ q) (hlt : q < (10 : ℚ) ^ (x + 1)) :
    Int.log 10 q = x := by
  have hpos : 0 < q := lt_of_lt_of_le (by positivity) hle
  have hlower : x ≤ Int.log 10 q :=
    (Int.zpow_le_iff_le_log (by decide) hpos).1 (by exact_mod_cast hle)
  have hupper : Int.log 10 q < x + 1 :=
    (Int.lt_zpow_iff_log_lt (by decide) hpos).1 (by exact_mod_cast hlt)
  omega

theorem zpow_log_le {q : ℚ} (hq : 0 < q) : (10 : ℚ) ^ Int.log 10 q ≤ q := by
  exact_mod_cast Int.zpow_log_le_self (b := 10) (by decide) hq

theorem lt_zpow_log (q : ℚ) : q < (10 : ℚ) ^ (Int.log 10 q + 1) := by
  exact_mod_cast Int.lt_zpow_succ_log_self (b := 10) (by decide) q

/-- In the unit of its last of `count` digits, a number has that many digits before the point. -/
theorem scaled_bounds {q : ℚ} (hq : 0 < q) {count : ℕ} (hcount : 0 < count) :
    ((10 ^ (count - 1) : ℕ) : ℚ) ≤ q * 10 ^ ((count : ℤ) - 1 - Int.log 10 q) ∧
      q * 10 ^ ((count : ℤ) - 1 - Int.log 10 q) < ((10 ^ count : ℕ) : ℚ) := by
  have hten : (10 : ℚ) ≠ 0 := by norm_num
  obtain ⟨k, rfl⟩ : ∃ k, count = k + 1 := ⟨count - 1, by omega⟩
  constructor
  · calc ((10 ^ k : ℕ) : ℚ) = 10 ^ Int.log 10 q * 10 ^ (((k + 1 : ℕ) : ℤ) - 1 - Int.log 10 q) := by
          rw [← zpow_add₀ hten]
          push_cast
          rw [← zpow_natCast]
          congr 1
          ring
      _ ≤ _ := by gcongr; exact zpow_log_le hq
  · calc q * 10 ^ (((k + 1 : ℕ) : ℤ) - 1 - Int.log 10 q)
        < 10 ^ (Int.log 10 q + 1) * 10 ^ (((k + 1 : ℕ) : ℤ) - 1 - Int.log 10 q) := by
          gcongr
          exact lt_zpow_log q
      _ = ((10 ^ (k + 1) : ℕ) : ℚ) := by
          rw [← zpow_add₀ hten]
          push_cast
          rw [← zpow_natCast]
          congr 1
          push_cast
          ring

theorem pow_digitCount_le {n : ℕ} (hn : 0 < n) : 10 ^ (digitCount n - 1) ≤ n := by
  rcases Nat.eq_zero_or_pos (digitCount n - 1) with hzero | hpos
  · rw [hzero]
    exact hn
  · refine Nat.le_of_not_lt fun hlt => ?_
    have hle := (Nat.length_toDigits_le_iff (by decide) hpos).2 hlt
    rw [digitCount] at hle hpos
    omega

theorem lt_pow_digitCount (n : ℕ) : n < 10 ^ digitCount n :=
  (Nat.length_toDigits_le_iff (by decide) Nat.length_toDigits_pos).1 (le_refl _)

/-- The digit counts leave two candidates for the exponent. -/
theorem digitCount_bounds {r : Ratio} (hnum : 0 < r.num) (hden : 0 < r.den) :
    (10 : ℚ) ^ ((digitCount r.num : ℤ) - digitCount r.den - 1) ≤ r.value ∧
      r.value < (10 : ℚ) ^ ((digitCount r.num : ℤ) - digitCount r.den + 1) := by
  have hpos : (0 : ℚ) < r.den := by exact_mod_cast hden
  have hdigits {n : ℕ} (hn : 0 < n) :
      (10 : ℚ) ^ ((digitCount n : ℤ) - 1) ≤ n ∧ (n : ℚ) < (10 : ℚ) ^ (digitCount n : ℤ) := by
    have hcount : 0 < digitCount n := Nat.length_toDigits_pos
    have hpred : (digitCount n : ℤ) - 1 = (digitCount n - 1 : ℕ) := by omega
    rw [hpred, zpow_natCast, zpow_natCast]
    exact ⟨by exact_mod_cast pow_digitCount_le hn, by exact_mod_cast lt_pow_digitCount n⟩
  obtain ⟨hnumLower, hnumUpper⟩ := hdigits hnum
  obtain ⟨hdenLower, hdenUpper⟩ := hdigits hden
  constructor
  · rw [Ratio.value, le_div_iff₀ hpos]
    calc (10 : ℚ) ^ ((digitCount r.num : ℤ) - digitCount r.den - 1) * r.den
        ≤ 10 ^ ((digitCount r.num : ℤ) - digitCount r.den - 1) * 10 ^ (digitCount r.den : ℤ) := by
          gcongr
      _ = 10 ^ ((digitCount r.num : ℤ) - 1) := by
          rw [← zpow_add₀ (by norm_num)]
          congr 1
          ring
      _ ≤ r.num := hnumLower
  · rw [Ratio.value, div_lt_iff₀ hpos]
    calc (r.num : ℚ) < 10 ^ (digitCount r.num : ℤ) := hnumUpper
      _ = 10 ^ ((digitCount r.num : ℤ) - digitCount r.den + 1) *
            10 ^ ((digitCount r.den : ℤ) - 1) := by
          rw [← zpow_add₀ (by norm_num)]
          congr 1
          ring
      _ ≤ 10 ^ ((digitCount r.num : ℤ) - digitCount r.den + 1) * r.den := by gcongr

theorem exponentOf_eq_log {r : Ratio} (hnum : 0 < r.num) (hden : 0 < r.den) :
    exponentOf r = Int.log 10 r.value := by
  obtain ⟨hlower, hupper⟩ := digitCount_bounds hnum hden
  rw [exponentOf]
  generalize (digitCount r.num : ℤ) - digitCount r.den = x at hlower hupper ⊢
  have hcompare : (r.scale 10 (-x)).den ≤ (r.scale 10 (-x)).num ↔ (10 : ℚ) ^ x ≤ r.value := by
    have hpos : (0 : ℚ) < (r.scale 10 (-x)).den := by
      exact_mod_cast Ratio.den_scale_pos hden (by decide) (-x)
    have hvalue : ((r.scale 10 (-x)).num : ℚ) / (r.scale 10 (-x)).den = r.value * 10 ^ (-x) := by
      exact_mod_cast Ratio.value_scale (by decide) (-x) r
    rw [← Nat.cast_le (α := ℚ), ← one_le_div hpos, hvalue, zpow_neg, ← div_eq_mul_inv,
      one_le_div (by positivity)]
  split
  · rename_i hle
    exact (log_eq_of_le_of_lt (hcompare.1 hle) hupper).symm
  · rename_i hgt
    refine (log_eq_of_le_of_lt hlower ?_).symm
    rw [sub_add_cancel]
    exact not_le.1 (mt hcompare.2 hgt)

/-! ## Significant digits -/

/-- `r` is `q` rounded to `count` significant decimal digits, a half to the even neighbour: the
nearest multiple of the unit in which `q` has `count` digits before the point. -/
def RoundsTo (count : ℕ) (q r : ℚ) : Prop :=
  ∃ c : ℕ, IsNearest (q * 10 ^ ((count : ℤ) - 1 - Int.log 10 q)) c ∧
    r = c * 10 ^ (Int.log 10 q - ((count : ℤ) - 1))

theorem RoundsTo.unique {count : ℕ} {q r s : ℚ} (hr : RoundsTo count q r)
    (hs : RoundsTo count q s) : r = s := by
  obtain ⟨c, hc, rfl⟩ := hr
  obtain ⟨d, hd, rfl⟩ := hs
  rw [hc.unique hd]

end MachInspect.Decimal
