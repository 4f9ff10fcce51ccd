-- SUMMARY: The numbers of a binary format: bit patterns, distances, and rounding to them.
import MachInspect.Proofs.Decimal.Rationals
import MachInspect.Decimal.Binary

/-!
# Numbers of a binary format

The finite numbers that bit patterns stand for are the mantissas and exponents in normal form
(`Canonical`), each value having one of them. `round` gives such a number and leaves it as it is.
How far apart two numbers are is told by their mantissas and exponents, and so is which of two
neighbours has an even mantissa.
-/
namespace MachInspect.Decimal.Format

variable {f : Format} {m m' : ℕ} {e e' : ℤ}

/-- A format with a leading bit and with normal numbers. -/
structure Proper (f : Format) : Prop where
  precision_pos : 0 < f.precision
  two_le_exponentBits : 2 ≤ f.exponentBits

theorem proper_binary64 : binary64.Proper := ⟨by decide, by decide⟩

theorem proper_binary32 : binary32.Proper := ⟨by decide, by decide⟩

theorem Proper.pow_precision (hf : f.Proper) :
    2 ^ f.precision = 2 * 2 ^ (f.precision - 1) := by
  rw [← Nat.pow_succ', Nat.succ_eq_add_one, Nat.sub_add_cancel hf.precision_pos]

theorem Proper.four_le (hf : f.Proper) : 4 ≤ 2 ^ f.exponentBits :=
  Nat.pow_le_pow_right Nat.two_pos hf.two_le_exponentBits

/-! ## Bit patterns -/

/-- Some bit pattern stands for `m * 2 ^ e`. -/
def Holds (f : Format) (m : ℕ) (e : ℤ) : Prop :=
  ∃ bits negative, f.decode bits = .finite negative m e

/-- Mantissas have their leading bit, except at the least exponent. -/
structure Canonical (f : Format) (m : ℕ) (e : ℤ) : Prop where
  lt : m < 2 ^ f.precision
  min_le : f.minExponent ≤ e
  le_max : e ≤ f.maxExponent
  normal : e = f.minExponent ∨ 2 ^ (f.precision - 1) ≤ m

theorem canonical_of_decode (hf : f.Proper) {bits : ℕ} {negative : Bool}
    (h : f.decode bits = .finite negative m e) : f.Canonical m e := by
  have hpow := hf.pow_precision
  have hfour := hf.four_le
  have hfraction : bits % 2 ^ (f.precision - 1) < 2 ^ (f.precision - 1) :=
    Nat.mod_lt _ (Nat.pow_pos Nat.two_pos)
  have hfield : bits / 2 ^ (f.precision - 1) % 2 ^ f.exponentBits < 2 ^ f.exponentBits :=
    Nat.mod_lt _ (Nat.pow_pos Nat.two_pos)
  have hmax : f.maxExponent = f.minExponent + (2 ^ f.exponentBits : ℕ) - 3 := rfl
  simp only [decode] at h
  split at h
  · split at h <;> cases h
  · split at h
    · cases h
      exact ⟨by omega, le_refl _, by omega, .inl rfl⟩
    · cases h
      exact ⟨by omega, by omega, by omega, .inr (Nat.le_add_left ..)⟩

theorem Canonical.decode_encodePositive (hf : f.Proper) (h : f.Canonical m e) :
    f.decode (f.encodePositive m e) = .finite false m e := by
  have hfour := hf.four_le
  have hpow := hf.pow_precision
  have hpos : 0 < 2 ^ (f.precision - 1) := Nat.pow_pos Nat.two_pos
  obtain ⟨hlt, hmin, hmax, hnormal⟩ := h
  rw [show f.maxExponent = f.minExponent + (2 ^ f.exponentBits : ℕ) - 3 from rfl] at hmax
  rw [decode, encodePositive]
  generalize 2 ^ (f.precision - 1) = hidden at *
  generalize 2 ^ f.exponentBits = fields at *
  rcases Nat.lt_or_ge m hidden with hless | hge
  · obtain rfl : e = f.minExponent := hnormal.resolve_right (by omega)
    simp only [sub_self, Int.toNat_zero, Nat.zero_mul, Nat.zero_add, Nat.mod_eq_of_lt hless,
      Nat.div_eq_of_lt hless, Nat.zero_mod, Nat.zero_div]
    rw [if_neg (by omega), if_pos trivial]
    rfl
  · obtain ⟨k, hk⟩ : ∃ k : ℕ, e = f.minExponent + k := ⟨(e - f.minExponent).toNat, by omega⟩
    obtain ⟨g, rfl⟩ := Nat.exists_eq_add_of_le hge
    have hbits : (e - f.minExponent).toNat * hidden + (hidden + g) = g + hidden * (k + 1) := by
      rw [hk, add_sub_cancel_left, Int.toNat_natCast]
      ring
    have hg : g < hidden := by omega
    have hfield : k + 1 < fields := by omega
    rw [hbits, Nat.add_mul_mod_self_left, Nat.add_mul_div_left _ _ hpos, Nat.mod_eq_of_lt hg,
      Nat.div_eq_of_lt hg, Nat.zero_add, Nat.mod_eq_of_lt hfield, Nat.div_eq_of_lt hfield]
    simp only [Nat.zero_mod]
    rw [if_neg (by omega), if_neg (by omega), Nat.add_comm g]
    congr 1
    omega

/-- The bit pattern of a finite number, with the sign in front of the other bits. -/
theorem eq_of_decode {bits : ℕ} {negative : Bool}
    (hbits : bits < 2 * (2 ^ f.exponentBits * 2 ^ (f.precision - 1)))
    (h : f.decode bits = .finite negative m e) :
    bits = (if negative then 2 ^ f.exponentBits * 2 ^ (f.precision - 1) else 0) +
      f.encodePositive m e := by
  have hfraction := Nat.mod_add_div' bits (2 ^ (f.precision - 1))
  have hfield := Nat.mod_add_div' (bits / 2 ^ (f.precision - 1)) (2 ^ f.exponentBits)
  have hsign : bits / 2 ^ (f.precision - 1) / 2 ^ f.exponentBits < 2 := by
    rw [Nat.div_div_eq_div_mul, Nat.mul_comm (2 ^ (f.precision - 1))]
    exact Nat.div_lt_of_lt_mul (by rwa [Nat.mul_comm])
  simp only [decode] at h
  rw [encodePositive]
  generalize 2 ^ (f.precision - 1) = hidden at *
  generalize 2 ^ f.exponentBits = fields at *
  generalize bits / hidden / fields = top at *
  generalize bits / hidden % fields = field at *
  generalize bits % hidden = fraction at *
  -- The bits are put together from fraction, field and sign.
  have hparts : bits = fraction + field * hidden + (if top = 1 then fields * hidden else 0) := by
    rw [← hfraction, ← hfield]
    obtain rfl | rfl : top = 0 ∨ top = 1 := by omega
    · simp
    · simp only [if_true]
      ring
  have hnegative : (top % 2 == 1) = decide (top = 1) := by
    obtain rfl | rfl : top = 0 ∨ top = 1 := by omega
    · rfl
    · rfl
  rw [hnegative] at h
  split at h
  · split at h <;> cases h
  · split at h
    · rename_i hzero
      cases h
      rw [hparts, hzero]
      simp [Nat.add_comm]
    · rename_i hne
      cases h
      obtain ⟨k, rfl⟩ := Nat.exists_eq_succ_of_ne_zero hne
      rw [hparts]
      have hk : (f.minExponent + (k.succ : ℕ) - 1 - f.minExponent).toNat = k := by omega
      rw [hk, Nat.succ_mul]
      simp only [decide_eq_true_eq]
      ring

theorem holds_iff_canonical (hf : f.Proper) : f.Holds m e ↔ f.Canonical m e := by
  constructor
  · rintro ⟨bits, negative, h⟩
    exact canonical_of_decode hf h
  · intro h
    exact ⟨_, _, h.decode_encodePositive hf⟩

/-! ## Rounding -/

/-- The exponent that a number is rounded at. -/
def lastExponent (f : Format) (m : ℕ) (e : ℤ) : ℤ :=
  max f.minExponent (Nat.log2 m + e - (f.precision - 1 : ℕ))

/-- What `round` makes of the nearest multiple `n * 2 ^ last`. -/
def settled (f : Format) (negative : Bool) (n : ℕ) (last : ℤ) : Number :=
  if n = 2 ^ f.precision then
    if f.maxExponent < last + 1 then .infinite negative
    else .finite negative (2 ^ (f.precision - 1)) (last + 1)
  else if f.maxExponent < last then .infinite negative
  else .finite negative n last

theorem round_eq_settled (negative : Bool) (hm : m ≠ 0) (e : ℤ) :
    f.round negative m e =
      f.settled negative
        (roundHalfEven (Ratio.ofBinary m (e - f.lastExponent m e)).num
          (Ratio.ofBinary m (e - f.lastExponent m e)).den) (f.lastExponent m e) := by
  rw [round, if_neg hm, settled, lastExponent]
  simp only
  split <;> rfl

/-- The nearest multiple has at most `precision` bits, and all of them above the least exponent. -/
theorem round_spec (hf : f.Proper) (negative : Bool) (hm : m ≠ 0) (e : ℤ) :
    ∃ n, IsNearest (m * (2 : ℚ) ^ (e - f.lastExponent m e)) n ∧ n ≤ 2 ^ f.precision ∧
      (f.lastExponent m e = f.minExponent ∨ 2 ^ (f.precision - 1) ≤ n) ∧
      f.round negative m e = f.settled negative n (f.lastExponent m e) := by
  have htwo : (2 : ℚ) ≠ 0 := by norm_num
  have hprecision : ((f.precision - 1 : ℕ) : ℤ) = f.precision - 1 := by
    have := hf.precision_pos
    omega
  have hnearest := Ratio.isNearest (Ratio.den_ofBinary_pos m (e - f.lastExponent m e))
  rw [Ratio.value_ofBinary] at hnearest
  refine ⟨_, hnearest, ?_, ?_, round_eq_settled negative hm e⟩
  · refine hnearest.le_of_ge ?_
    have hm : (m : ℚ) ≤ 2 ^ ((Nat.log2 m : ℤ) + 1) := by
      exact_mod_cast (Nat.lt_log2_self (n := m)).le
    have hlast : (Nat.log2 m : ℤ) + 1 + (e - f.lastExponent m e) ≤ f.precision := by
      have : (Nat.log2 m : ℤ) + e - (f.precision - 1 : ℕ) ≤ f.lastExponent m e := le_max_right ..
      omega
    calc (m : ℚ) * 2 ^ (e - f.lastExponent m e)
        ≤ 2 ^ ((Nat.log2 m : ℤ) + 1) * 2 ^ (e - f.lastExponent m e) := by gcongr
      _ = 2 ^ ((Nat.log2 m : ℤ) + 1 + (e - f.lastExponent m e)) := (zpow_add₀ htwo _ _).symm
      _ ≤ 2 ^ (f.precision : ℤ) := by gcongr; norm_num
      _ = ((2 ^ f.precision : ℕ) : ℚ) := by rw [zpow_natCast]; push_cast; rfl
  · rw [or_iff_not_imp_left]
    intro hne
    refine hnearest.le_of_le ?_
    have hm : (2 : ℚ) ^ (Nat.log2 m : ℤ) ≤ m := by exact_mod_cast Nat.log2_self_le hm
    have hlast : f.lastExponent m e = Nat.log2 m + e - (f.precision - 1 : ℕ) := by
      rw [lastExponent] at hne ⊢
      omega
    calc ((2 ^ (f.precision - 1) : ℕ) : ℚ)
        = 2 ^ (Nat.log2 m : ℤ) * 2 ^ (e - f.lastExponent m e) := by
          rw [hlast, ← zpow_add₀ htwo]
          push_cast
          rw [← zpow_natCast]
          congr 1
          ring
      _ ≤ m * 2 ^ (e - f.lastExponent m e) := by gcongr

theorem canonical_of_settled (hf : f.Proper) {negative sign : Bool} {n : ℕ} {last : ℤ}
    (hn : n ≤ 2 ^ f.precision) (hmin : f.minExponent ≤ last)
    (hnormal : last = f.minExponent ∨ 2 ^ (f.precision - 1) ≤ n)
    (h : f.settled negative n last = .finite sign m e) : sign = negative ∧ f.Canonical m e := by
  have hpow := hf.pow_precision
  have hpos : 0 < 2 ^ (f.precision - 1) := Nat.pow_pos Nat.two_pos
  rw [settled] at h
  split at h <;> split at h <;> cases h
  · exact ⟨rfl, by omega, by omega, by omega, .inr (le_refl _)⟩
  · exact ⟨rfl, by omega, by omega, by omega, hnormal⟩

/-- Rounding gives a number of the format, or an infinity, and keeps the sign. -/
theorem canonical_of_round (hf : f.Proper) {negative sign : Bool} {m' : ℕ} {e' : ℤ}
    (h : f.round negative m e = .finite sign m' e') : sign = negative ∧ f.Canonical m' e' := by
  by_cases hm : m = 0
  · have hfour := hf.four_le
    have hpos : 0 < 2 ^ f.precision := Nat.pow_pos Nat.two_pos
    rw [round, if_pos hm] at h
    cases h
    refine ⟨rfl, hpos, le_refl _, ?_, .inl rfl⟩
    rw [maxExponent]
    omega
  · obtain ⟨n, -, hn, hnormal, hround⟩ := round_spec hf negative hm e
    rw [hround] at h
    exact canonical_of_settled hf hn (le_max_left ..) hnormal h

/-- Rounding changes nothing but numbers whose exponent is too large. -/
theorem round_of_normal (hf : f.Proper) (negative : Bool) (hm : m ≠ 0) (hlt : m < 2 ^ f.precision)
    (hmin : f.minExponent ≤ e) (hnormal : e = f.minExponent ∨ 2 ^ (f.precision - 1) ≤ m) :
    f.round negative m e =
      if f.maxExponent < e then .infinite negative else .finite negative m e := by
  have hlast : f.lastExponent m e = e := by
    have hprecision := hf.precision_pos
    have hupper : Nat.log2 m < f.precision := (Nat.log2_lt hm).2 hlt
    have hlower : 2 ^ (f.precision - 1) ≤ m → f.precision - 1 ≤ Nat.log2 m := (Nat.le_log2 hm).2
    rw [lastExponent]
    omega
  obtain ⟨n, hnearest, -, -, hround⟩ := round_spec hf negative hm e
  rw [hlast, sub_self, zpow_zero, mul_one] at hnearest
  obtain rfl : n = m := hnearest.unique (isNearest_natCast m)
  rw [hround, hlast, settled, if_neg hlt.ne]

theorem Canonical.round_eq (hf : f.Proper) (h : f.Canonical m e) (negative : Bool) :
    f.round negative m e = .finite negative m e := by
  by_cases hm : m = 0
  · have hpos : 0 < 2 ^ (f.precision - 1) := Nat.pow_pos Nat.two_pos
    have he := h.normal.resolve_right (by omega)
    rw [round, if_pos hm, hm, he]
  · rw [round_of_normal hf negative hm h.lt h.min_le h.normal, if_neg (not_lt.2 h.le_max)]

/-! ## Distances -/

section Distances

/-- At the finer of two exponents, a number is a whole multiple of the unit. -/
theorem exists_multiple (m' : ℕ) (hle : e ≤ e') :
    ∃ k : ℕ, e' = e + k ∧ m' * (2 : ℚ) ^ e' = ((m' * 2 ^ k : ℕ) : ℚ) * 2 ^ e := by
  obtain ⟨k, hk⟩ : ∃ k : ℕ, e' = e + k := ⟨(e' - e).toNat, by omega⟩
  refine ⟨k, hk, ?_⟩
  rw [hk, zpow_add₀ (by norm_num), zpow_natCast]
  push_cast
  ring

/-- Numbers with a larger exponent are larger by whole units of the smaller one. -/
theorem Canonical.multiple_of_lt (h : f.Canonical m e) (h' : f.Canonical m' e') (hlt : e' < e) :
    ∃ k : ℕ, e = e' + (k + 1 : ℕ) ∧ m * (2 : ℚ) ^ e = ((m * 2 ^ (k + 1) : ℕ) : ℚ) * 2 ^ e' ∧
      2 ^ (f.precision - 1) ≤ m ∧ m' < 2 ^ f.precision * 2 ^ k := by
  obtain ⟨k, hk, hvalue⟩ := exists_multiple m hlt.le
  obtain ⟨j, rfl⟩ : ∃ j, k = j + 1 := ⟨k - 1, by omega⟩
  refine ⟨j, hk, hvalue, h.normal.resolve_left ?_, ?_⟩
  · have := h'.min_le
    omega
  · exact lt_of_lt_of_le h'.lt (Nat.le_mul_of_pos_right _ (Nat.pow_pos Nat.two_pos))

theorem Canonical.value_lt_of_lt (hf : f.Proper) (h : f.Canonical m e) (h' : f.Canonical m' e')
    (hlt : e' < e) : m' * (2 : ℚ) ^ e' < m * 2 ^ e := by
  obtain ⟨k, -, hvalue, hnormal, hm'⟩ := h.multiple_of_lt h' hlt
  have hless : m' < m * 2 ^ (k + 1) :=
    calc m' < 2 ^ f.precision * 2 ^ k := hm'
      _ = 2 ^ (f.precision - 1) * 2 ^ (k + 1) := by rw [hf.pow_precision, Nat.pow_succ]; ring
      _ ≤ m * 2 ^ (k + 1) := Nat.mul_le_mul_right _ hnormal
  rw [hvalue]
  gcongr

/-- A value has only one mantissa and exponent. -/
theorem Canonical.unique (hf : f.Proper) (h : f.Canonical m e) (h' : f.Canonical m' e')
    (hvalue : m * (2 : ℚ) ^ e = m' * 2 ^ e') : m = m' ∧ e = e' := by
  rcases lt_trichotomy e e' with hlt | rfl | hgt
  · exact absurd hvalue (h'.value_lt_of_lt hf h hlt).ne
  · have hpos : (2 : ℚ) ^ e ≠ 0 := by positivity
    exact ⟨by exact_mod_cast mul_right_cancel₀ hpos hvalue, rfl⟩
  · exact absurd hvalue (h.value_lt_of_lt hf h' hgt).ne'

theorem odd_of_odd_mul_pow {k : ℕ} (h : Odd (m * 2 ^ k)) : Odd m := (Nat.odd_mul.1 h).1

/-- The next number above is a unit away, and its mantissa is odd if this one is even. -/
theorem Canonical.gap_above (hf : f.Proper) (h : f.Canonical m e) (h' : f.Canonical m' e')
    (hlt : m * (2 : ℚ) ^ e < m' * 2 ^ e') :
    m * (2 : ℚ) ^ e + 2 ^ e ≤ m' * 2 ^ e' ∧
      (m * (2 : ℚ) ^ e + 2 ^ e = m' * 2 ^ e' → Even m → Odd m') := by
  have hpos : (0 : ℚ) < 2 ^ e := by positivity
  have hle : e ≤ e' := not_lt.1 fun hgt => absurd hlt (h.value_lt_of_lt hf h' hgt).not_gt
  obtain ⟨k, -, hvalue⟩ := exists_multiple m' hle
  have hsum : m * (2 : ℚ) ^ e + 2 ^ e = ((m + 1 : ℕ) : ℚ) * 2 ^ e := by push_cast; ring
  rw [hvalue] at hlt ⊢
  rw [hsum]
  have hless : m < m' * 2 ^ k := by exact_mod_cast lt_of_mul_lt_mul_right hlt hpos.le
  refine ⟨by gcongr; exact hless, fun heq heven => ?_⟩
  have hnext : m + 1 = m' * 2 ^ k := by exact_mod_cast mul_right_cancel₀ hpos.ne' heq
  exact odd_of_odd_mul_pow (k := k) (hnext ▸ heven.add_one)

/-- Half the distance to the number below, in quarters of a unit: less for a mantissa that is just
the leading bit. -/
def quartersBelow (f : Format) (m : ℕ) : ℕ := if m = 2 ^ (f.precision - 1) then 1 else 2

theorem quartersBelow_le (f : Format) (m : ℕ) : f.quartersBelow m ≤ 2 := by
  rw [quartersBelow]
  split <;> decide

/-- A mantissa of a smaller exponent is below by half of the unit, or by more. -/
theorem mantissa_gap (hf : f.Proper) {k : ℕ} (hnormal : 2 ^ (f.precision - 1) ≤ m)
    (hm' : m' < 2 ^ f.precision) :
    m' + f.quartersBelow m * 2 ^ k ≤ m * 2 ^ (k + 1) ∧
      (m' + f.quartersBelow m * 2 ^ k = m * 2 ^ (k + 1) → Odd m') := by
  have hpos : 1 ≤ 2 ^ k := Nat.one_le_two_pow
  rw [hf.pow_precision] at hm'
  rw [quartersBelow, Nat.pow_succ]
  generalize 2 ^ (f.precision - 1) = hidden at hnormal hm' ⊢
  generalize 2 ^ k = unit at hpos ⊢
  split
  · rename_i heq
    subst heq
    constructor
    · calc m' + 1 * unit ≤ (2 * m - 1) * unit + 1 * unit :=
            Nat.add_le_add_right (le_trans (by omega) (Nat.le_mul_of_pos_right _ hpos)) _
        _ = m * (unit * 2) := by
            rw [← Nat.add_mul, Nat.sub_add_cancel (by omega)]
            ring
    · intro hsum
      -- A full mantissa is the only one that comes so near, and it is odd.
      have hfull : m' = (2 * m - 1) * unit := by
        have hdouble : m * (unit * 2) = 2 * m * unit := by ring
        rw [Nat.sub_mul]
        omega
      obtain rfl : unit = 1 := by
        refine le_antisymm (Nat.le_of_not_lt fun hunit => ?_) hpos
        have := Nat.mul_le_mul_left (2 * m - 1) (show 2 ≤ unit from hunit)
        omega
      rw [hfull, Nat.odd_iff]
      omega
  · rename_i hne
    have hless : m' + 2 * unit < m * (unit * 2) :=
      calc m' + 2 * unit < 2 * hidden * unit + 2 * unit :=
            Nat.add_lt_add_right (lt_of_lt_of_le hm' (Nat.le_mul_of_pos_right _ hpos)) _
        _ = (hidden + 1) * (unit * 2) := by ring
        _ ≤ m * (unit * 2) := Nat.mul_le_mul_right _ (by omega)
    exact ⟨hless.le, fun heq => absurd heq hless.ne⟩

/-- The next number below is that far away, and its mantissa is odd if this one is even. -/
theorem Canonical.gap_below (hf : f.Proper) (h : f.Canonical m e) (h' : f.Canonical m' e')
    (hlt : m' * (2 : ℚ) ^ e' < m * 2 ^ e) :
    m' * (2 : ℚ) ^ e' + f.quartersBelow m * 2 ^ (e - 1) ≤ m * 2 ^ e ∧
      (m' * (2 : ℚ) ^ e' + f.quartersBelow m * 2 ^ (e - 1) = m * 2 ^ e → Even m → Odd m') := by
  rcases le_or_gt e e' with hle | hgt
  · -- At an exponent that is not smaller, a whole unit is between them.
    have hpos : (0 : ℚ) < 2 ^ e := by positivity
    have hhalf : (2 : ℚ) ^ e = 2 * 2 ^ (e - 1) := by rw [zpow_sub_one₀ two_ne_zero]; ring
    have hquarters : f.quartersBelow m * (2 : ℚ) ^ (e - 1) ≤ 2 ^ e := by
      rw [hhalf]
      gcongr
      exact_mod_cast quartersBelow_le f m
    obtain ⟨k, -, hvalue⟩ := exists_multiple m' hle
    rw [hvalue] at hlt ⊢
    have hless : m' * 2 ^ k + 1 ≤ m := by exact_mod_cast lt_of_mul_lt_mul_right hlt hpos.le
    have hunit : ((m' * 2 ^ k : ℕ) : ℚ) * 2 ^ e + 2 ^ e ≤ m * 2 ^ e := by
      calc ((m' * 2 ^ k : ℕ) : ℚ) * 2 ^ e + 2 ^ e = ((m' * 2 ^ k + 1 : ℕ) : ℚ) * 2 ^ e := by
            push_cast
            ring
        _ ≤ m * 2 ^ e := by gcongr
    refine ⟨by linarith, fun heq heven => ?_⟩
    have hsum : ((m' * 2 ^ k + 1 : ℕ) : ℚ) * 2 ^ e = m * 2 ^ e := by
      push_cast at hunit heq ⊢
      linarith
    have hnext : m' * 2 ^ k + 1 = m := by exact_mod_cast mul_right_cancel₀ hpos.ne' hsum
    refine odd_of_odd_mul_pow (k := k) (Nat.not_even_iff_odd.1 fun hodd => ?_)
    exact Nat.not_even_iff_odd.2 (hnext ▸ hodd.add_one) heven
  · obtain ⟨k, hk, hvalue, hnormal, -⟩ := h.multiple_of_lt h' hgt
    have hpos : (0 : ℚ) < 2 ^ e' := by positivity
    have hhalf : (2 : ℚ) ^ (e - 1) = (2 ^ k : ℕ) * 2 ^ e' := by
      rw [show e - 1 = k + e' by omega, zpow_add₀ two_ne_zero, zpow_natCast]
      push_cast
      rfl
    obtain ⟨hgap, hodd⟩ := mantissa_gap hf (k := k) hnormal h'.lt
    have hsum : m' * (2 : ℚ) ^ e' + f.quartersBelow m * 2 ^ (e - 1) =
        ((m' + f.quartersBelow m * 2 ^ k : ℕ) : ℚ) * 2 ^ e' := by
      rw [hhalf]
      push_cast
      ring
    rw [hvalue, hsum]
    refine ⟨by gcongr, fun heq _ => hodd ?_⟩
    exact_mod_cast mul_right_cancel₀ hpos.ne' heq

end Distances

end MachInspect.Decimal.Format
