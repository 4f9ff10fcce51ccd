-- SUMMARY: The shortest digits of a number read back as that number.
import MachInspect.Proofs.Decimal.Formats
import MachInspect.Proofs.Decimal.Significant
import MachInspect.Decimal.Shortest

/-!
# Shortest digits are read back

A decimal is read as the nearest number of a format (`Reads`). The decimals that are read as a given
number form an interval around it, reaching half of the way to its neighbours. The search for digits
stays inside that interval, and it ends there: on the grid of seventeen digits the interval is wider
than the distance of two points.
-/
namespace MachInspect.Decimal

/-! ## Reading decimals -/

namespace Format

variable {f : Format} {m m' : ℕ} {e e' : ℤ} {q : ℚ}

/-- The decimal `q` is read as `m * 2 ^ e`: no other number of the format is nearer, one that is as
near has an odd mantissa where this one is even, and `q` is not past the largest numbers. -/
structure Reads (f : Format) (q : ℚ) (m : ℕ) (e : ℤ) : Prop where
  holds : f.Holds m e
  nearest : ∀ m' e', f.Holds m' e' → m' * (2 : ℚ) ^ e' ≠ m * 2 ^ e →
    |q - m * 2 ^ e| < |q - m' * 2 ^ e'| ∨
      |q - m * 2 ^ e| = |q - m' * 2 ^ e'| ∧ Even m ∧ Odd m'
  in_range : q < (2 ^ (f.precision + 1) - 1) * 2 ^ (f.maxExponent - 1)

theorem Reads.unique (hf : f.Proper) (h : f.Reads q m e) (h' : f.Reads q m' e') :
    m = m' ∧ e = e' := by
  have hcanonical := (holds_iff_canonical hf).1 h.holds
  have hcanonical' := (holds_iff_canonical hf).1 h'.holds
  by_cases hvalue : m * (2 : ℚ) ^ e = m' * 2 ^ e'
  · exact hcanonical.unique hf hcanonical' hvalue
  · -- Each would be nearer than the other, or have the even mantissa.
    rcases h.nearest m' e' h'.holds (Ne.symm hvalue) with hlt | ⟨heq, heven, -⟩ <;>
      rcases h'.nearest m e h.holds hvalue with hlt' | ⟨heq', -, hodd⟩
    · exact absurd hlt hlt'.not_gt
    · exact absurd heq' hlt.ne'
    · exact absurd heq hlt'.ne'
    · exact absurd heven (Nat.not_even_iff_odd.2 hodd)

/-- The decimals around a number that are read as it. -/
structure Within (f : Format) (m : ℕ) (e : ℤ) (q : ℚ) : Prop where
  lower : (4 * m - f.quartersBelow m) * (2 : ℚ) ^ (e - 2) ≤ q
  upper : q ≤ (4 * m + 2) * (2 : ℚ) ^ (e - 2)
  ends : (4 * m - f.quartersBelow m) * (2 : ℚ) ^ (e - 2) = q ∨ q = (4 * m + 2) * (2 : ℚ) ^ (e - 2) →
    Even m

/-- Up to half of the way to a larger number, the smaller one is nearer, except at the half. -/
theorem nearer_of_le_half {v w h : ℚ} (hpos : 0 < h) (hgap : v + 2 * h ≤ w) (hq : q ≤ v + h) :
    |q - v| < |q - w| ∨ |q - v| = |q - w| ∧ q = v + h ∧ v + 2 * h = w := by
  have hw : |q - w| = w - q := by rw [abs_of_nonpos] <;> linarith
  rw [hw]
  rcases le_or_gt q v with hle | hgt
  · left
    rw [abs_of_nonpos] <;> linarith
  · rw [abs_of_pos (by linarith)]
    rcases lt_or_ge (q - v) (w - q) with hlt | hge
    · exact .inl hlt
    · exact .inr ⟨by linarith, by linarith, by linarith⟩

theorem nearer_of_ge_half {v w h : ℚ} (hpos : 0 < h) (hgap : w + 2 * h ≤ v) (hq : v - h ≤ q) :
    |q - v| < |q - w| ∨ |q - v| = |q - w| ∧ v - h = q ∧ w + 2 * h = v := by
  have hmirror (a : ℚ) : |(-q) - (-a)| = |q - a| := by rw [neg_sub_neg, abs_sub_comm]
  have hnearer := nearer_of_le_half (q := -q) (v := -v) (w := -w) hpos (by linarith) (by linarith)
  rw [hmirror, hmirror] at hnearer
  rcases hnearer with hlt | ⟨heq, hq, hgap⟩
  · exact .inl hlt
  · exact .inr ⟨heq, by linarith, by linarith⟩

theorem two_zpow_eq_four (e : ℤ) : (2 : ℚ) ^ e = 4 * 2 ^ (e - 2) := by
  rw [zpow_sub₀ two_ne_zero]
  ring

theorem two_zpow_sub_one_eq (e : ℤ) : (2 : ℚ) ^ (e - 1) = 2 * 2 ^ (e - 2) := by
  rw [zpow_sub₀ two_ne_zero, zpow_sub₀ two_ne_zero]
  ring

theorem Within.in_range (hf : f.Proper) (h : f.Canonical m e) (hq : f.Within m e q) :
    q < (2 ^ (f.precision + 1) - 1) * 2 ^ (f.maxExponent - 1) := by
  have hpos : (0 : ℚ) < 2 ^ (e - 2) := by positivity
  have hfull : q < (4 * 2 ^ f.precision - 2) * 2 ^ (e - 2) := by
    rcases Nat.lt_or_ge (m + 1) (2 ^ f.precision) with hless | hge
    · have hm : (m : ℚ) + 2 ≤ 2 ^ f.precision := by exact_mod_cast hless
      calc q ≤ (4 * m + 2) * 2 ^ (e - 2) := hq.upper
        _ < (4 * 2 ^ f.precision - 2) * 2 ^ (e - 2) := by gcongr; linarith
    · have hlt := h.lt
      have hpow := hf.pow_precision
      have hm : (m : ℚ) + 1 = 2 ^ f.precision := by
        have : m + 1 = 2 ^ f.precision := by omega
        exact_mod_cast this
      have hodd : ¬ Even m := by
        rw [Nat.not_even_iff]
        omega
      have hend : (4 * m + 2 : ℚ) = 4 * 2 ^ f.precision - 2 := by linarith
      rw [← hend]
      exact lt_of_le_of_ne hq.upper fun heq => hodd (hq.ends (.inr heq))
  calc q < (4 * 2 ^ f.precision - 2) * 2 ^ (e - 2) := hfull
    _ = (2 ^ (f.precision + 1) - 1) * 2 ^ (e - 1) := by rw [two_zpow_sub_one_eq, pow_succ]; ring
    _ ≤ (2 ^ (f.precision + 1) - 1) * 2 ^ (f.maxExponent - 1) := by
        have hone : (1 : ℚ) ≤ 2 ^ (f.precision + 1) := one_le_pow₀ (by norm_num)
        have hle := h.le_max
        gcongr
        linarith

/-- All of the interval is read as the number in it. -/
theorem Within.reads (hf : f.Proper) (h : f.Canonical m e) (hq : f.Within m e q) :
    f.Reads q m e := by
  refine ⟨(holds_iff_canonical hf).2 h, fun m' e' h' hne => ?_, hq.in_range hf h⟩
  have hcanonical := (holds_iff_canonical hf).1 h'
  have hpos : (0 : ℚ) < 2 ^ (e - 2) := by positivity
  have hvalue : m * (2 : ℚ) ^ e = 4 * m * 2 ^ (e - 2) := by rw [two_zpow_eq_four]; ring
  rcases lt_or_gt_of_ne hne with hbelow | habove
  · obtain ⟨hgap, hodd⟩ := h.gap_below hf hcanonical hbelow
    have hhalf : f.quartersBelow m * (2 : ℚ) ^ (e - 1) = 2 * (f.quartersBelow m * 2 ^ (e - 2)) := by
      rw [two_zpow_sub_one_eq]
      ring
    have hquarters : (0 : ℚ) < f.quartersBelow m * 2 ^ (e - 2) := by
      refine mul_pos ?_ hpos
      rw [quartersBelow]
      split <;> norm_num
    have hlower := hq.lower
    rw [hhalf] at hgap hodd
    rcases nearer_of_ge_half hquarters hgap (by linarith) with hlt | ⟨heq, hend, hnext⟩
    · exact .inl hlt
    · have heven := hq.ends (.inl (by linarith))
      exact .inr ⟨heq, heven, hodd hnext heven⟩
  · obtain ⟨hgap, hodd⟩ := h.gap_above hf hcanonical habove
    have hhalf : (2 : ℚ) ^ e = 2 * (2 * 2 ^ (e - 2)) := by rw [two_zpow_eq_four]; ring
    have hupper := hq.upper
    have hnearer := nearer_of_le_half (q := q) (mul_pos two_pos hpos)
      (by rwa [← hhalf] : m * (2 : ℚ) ^ e + 2 * (2 * 2 ^ (e - 2)) ≤ m' * 2 ^ e') (by linarith)
    rcases hnearer with hlt | ⟨heq, hend, hnext⟩
    · exact .inl hlt
    · have heven := hq.ends (.inr (by linarith))
      exact .inr ⟨heq, heven, hodd (by rw [← hnext, ← hhalf]) heven⟩

end Format

/-! ## The search -/

namespace Shortest

variable {f : Format} {m : ℕ} {e x : ℤ} {i : Interval} {unit : Ratio} {c : ℕ}

theorem before_iff (i : Interval) (a b : ℕ) :
    i.before a b = true ↔ a ≤ b ∧ (a = b → i.closed = true) := by
  rw [Interval.before]
  cases i.closed <;> simp [Nat.lt_iff_le_and_ne]

/-- The point `c` of a grid is in the interval, the interval's unit being `u` in this grid. -/
structure Interval.Contains (i : Interval) (u : ℚ) (c : ℕ) : Prop where
  lower : i.low * u ≤ c
  upper : c ≤ i.high * u
  ends : i.low * u = c ∨ c = i.high * u → i.closed = true

theorem cast_mul_value (hden : 0 < unit.den) (a b : ℕ) :
    (a * unit.num ≤ b * unit.den ↔ a * unit.value ≤ b) ∧
      (a * unit.num = b * unit.den ↔ a * unit.value = b) ∧
      (b * unit.den ≤ a * unit.num ↔ b ≤ a * unit.value) := by
  have hpos : (0 : ℚ) < unit.den := by exact_mod_cast hden
  have hvalue : a * unit.value = ((a * unit.num : ℕ) : ℚ) / unit.den := by
    rw [Ratio.value]
    push_cast
    ring
  rw [hvalue]
  refine ⟨?_, ?_, ?_⟩
  · rw [div_le_iff₀ hpos]
    exact_mod_cast Iff.rfl
  · rw [div_eq_iff hpos.ne']
    exact_mod_cast Iff.rfl
  · rw [le_div_iff₀ hpos]
    exact_mod_cast Iff.rfl

theorem contains_of_le (hden : 0 < unit.den) (hlower : i.low * unit.num ≤ c * unit.den)
    (hupper : c * unit.den ≤ i.high * unit.num)
    (hends : i.low * unit.num = c * unit.den ∨ c * unit.den = i.high * unit.num → i.closed = true) :
    i.Contains unit.value c := by
  obtain ⟨hle, heq, -⟩ := cast_mul_value hden i.low c
  obtain ⟨-, heq', hge⟩ := cast_mul_value hden i.high c
  exact ⟨hle.1 hlower, hge.1 hupper, fun h => hends (h.imp heq.2 fun h => (heq'.2 h.symm).symm)⟩

/-- The neighbour that is taken is in the interval, and is a point next to the number. -/
theorem neighbour?_eq_some (hden : 0 < unit.den) (hnum : 0 < unit.num) (hlow : i.low < i.center)
    (hhigh : i.center < i.high) (h : neighbour? i unit = some c) :
    i.Contains unit.value c ∧ i.center * unit.num / unit.den ≤ c ∧
      c ≤ i.center * unit.num / unit.den + 1 := by
  have hfloor := Nat.div_mul_le_self (i.center * unit.num) unit.den
  have hceil : i.center * unit.num < (i.center * unit.num / unit.den + 1) * unit.den :=
    (Nat.div_lt_iff_lt_mul hden).1 (Nat.lt_succ_self _)
  have hlow' : i.low * unit.num < i.center * unit.num := Nat.mul_lt_mul_of_pos_right hlow hnum
  have hhigh' : i.center * unit.num < i.high * unit.num := Nat.mul_lt_mul_of_pos_right hhigh hnum
  simp only [neighbour?] at h
  split at h
  · rename_i hup
    cases h
    obtain ⟨hle, hend⟩ := (before_iff ..).1 (Bool.and_eq_true_iff.1 hup).1
    refine ⟨contains_of_le hden (hlow'.trans hceil).le hle fun h => ?_, Nat.le_succ _, le_refl _⟩
    exact hend (h.resolve_left (hlow'.trans hceil).ne)
  · split at h
    · rename_i hdown
      cases h
      obtain ⟨hle, hend⟩ := (before_iff ..).1 hdown
      have hless := lt_of_le_of_lt hfloor hhigh'
      refine ⟨contains_of_le hden hle hless.le fun h => ?_, le_refl _, Nat.le_succ _⟩
      exact hend (h.resolve_right hless.ne)
    · cases h

/-- An interval that is wider than the grid has one of the two points. -/
theorem exists_neighbour? (hden : 0 < unit.den) (hwide : 1 < (i.high - i.low) * unit.value) :
    ∃ c, neighbour? i unit = some c := by
  simp only [neighbour?]
  split
  · exact ⟨_, rfl⟩
  split
  · exact ⟨_, rfl⟩
  · rename_i hup hdown
    rw [Bool.and_eq_true, not_and] at hup
    have hdown' : i.center * unit.num / unit.den * unit.den ≤ i.low * unit.num := by
      rw [before_iff, not_and] at hdown
      omega
    have hup' : i.high * unit.num ≤ (i.center * unit.num / unit.den + 1) * unit.den := by
      have hnotUp : ¬ i.before ((i.center * unit.num / unit.den + 1) * unit.den)
          (i.high * unit.num) = true := fun h => hup h (by simp [hdown])
      rw [before_iff, not_and] at hnotUp
      omega
    have hbelow := (cast_mul_value hden i.low _).2.2.1 hdown'
    have habove := (cast_mul_value hden i.high _).1.1 hup'
    push_cast at habove
    linarith

/-- The interval's unit on the grid of `count` digits. -/
def gridUnit (exponent x : ℤ) (count : ℕ) : Ratio :=
  (Ratio.ofBinary 1 exponent).scale 10 ((count : ℤ) - 1 - x)

theorem den_gridUnit_pos (exponent x : ℤ) (count : ℕ) : 0 < (gridUnit exponent x count).den :=
  Ratio.den_scale_pos (Ratio.den_ofBinary_pos 1 exponent) (by decide) _

theorem value_gridUnit (exponent x : ℤ) (count : ℕ) :
    (gridUnit exponent x count).value = 2 ^ exponent * 10 ^ ((count : ℤ) - 1 - x) := by
  have hscale := Ratio.value_scale (show 0 < 10 by decide) ((count : ℤ) - 1 - x)
    (Ratio.ofBinary 1 exponent)
  rw [Ratio.value_ofBinary, Nat.cast_one, one_mul] at hscale
  exact_mod_cast hscale

theorem num_gridUnit_pos (exponent x : ℤ) (count : ℕ) : 0 < (gridUnit exponent x count).num := by
  refine Ratio.num_pos_of_value_pos ?_
  rw [value_gridUnit]
  positivity

theorem search_of_some {count fuel : ℕ} (h : neighbour? i (gridUnit i.exponent x count) = some c) :
    search i x count (fuel + 1) = .ofCoefficient count c x := by
  rw [gridUnit] at h
  simp only [search, h]

theorem search_of_none {count fuel : ℕ} (h : neighbour? i (gridUnit i.exponent x count) = none) :
    search i x count (fuel + 1) = search i x (count + 1) fuel := by
  rw [gridUnit] at h
  simp only [search, h]

/-- The search ends with a neighbour, once some grid that it comes to has one. -/
theorem search_spec (i : Interval) (x : ℤ) {last : ℕ}
    (hlast : ∃ c, neighbour? i (gridUnit i.exponent x last) = some c) {count fuel : ℕ}
    (hle : count ≤ last) (hlt : last < count + fuel) :
    ∃ n c, count ≤ n ∧ neighbour? i (gridUnit i.exponent x n) = some c ∧
      search i x count fuel = .ofCoefficient n c x := by
  induction fuel generalizing count with
  | zero => omega
  | succ fuel ih =>
    cases hc : neighbour? i (gridUnit i.exponent x count) with
    | some c => exact ⟨count, c, le_refl _, hc, search_of_some hc⟩
    | none =>
      have hne : count ≠ last := by
        rintro rfl
        obtain ⟨c, hsome⟩ := hlast
        rw [hc] at hsome
        cases hsome
      obtain ⟨n, c, hn, hneighbour, hsearch⟩ := ih (show count + 1 ≤ last by omega) (by omega)
      exact ⟨n, c, by omega, hneighbour, (search_of_none hc).trans hsearch⟩

/-! ## The interval of a number -/

theorem low_of (f : Format) (hm : m ≠ 0) (e : ℤ) :
    ((Interval.of f m e).low : ℚ) = 4 * m - f.quartersBelow m := by
  have hlow : (Interval.of f m e).low + f.quartersBelow m = 4 * m := by
    rw [Interval.of, Format.quartersBelow]
    simp only
    split <;> omega
  have : (((Interval.of f m e).low + f.quartersBelow m : ℕ) : ℚ) = ((4 * m : ℕ) : ℚ) := by rw [hlow]
  push_cast at this
  linarith

theorem high_of (f : Format) (m : ℕ) (e : ℤ) : ((Interval.of f m e).high : ℚ) = 4 * m + 2 := by
  simp [Interval.of]

theorem center_of (f : Format) (m : ℕ) (e x : ℤ) (count : ℕ) :
    (Interval.of f m e).center * (gridUnit (e - 2) x count).value =
      m * 2 ^ e * 10 ^ ((count : ℤ) - 1 - x) := by
  rw [value_gridUnit, Format.two_zpow_eq_four e, Interval.of]
  push_cast
  ring

/-- Points of a grid that are in the interval are decimals that are read as the number. -/
theorem within_of_contains (hm : m ≠ 0) {count : ℕ}
    (h : (Interval.of f m e).Contains (gridUnit (e - 2) x count).value c) :
    f.Within m e (c * 10 ^ (x - ((count : ℤ) - 1))) := by
  have hten : (10 : ℚ) ≠ 0 := by norm_num
  obtain ⟨p, hp⟩ : ∃ p : ℚ, p = 10 ^ (x - ((count : ℤ) - 1)) := ⟨_, rfl⟩
  have hpos : 0 < p := by rw [hp]; positivity
  -- One unit of the grid is `p`.
  have hunit (a : ℚ) : a * 2 ^ (e - 2) = a * (gridUnit (e - 2) x count).value * p := by
    rw [value_gridUnit, hp, ← mul_assoc, mul_assoc _ (10 ^ _), ← zpow_add₀ hten]
    simp
  obtain ⟨hlower, hupper, hends⟩ := h
  rw [low_of f hm] at hlower hends
  rw [high_of] at hupper hends
  rw [← hp]
  refine ⟨?_, ?_, fun hend => ?_⟩
  · rw [hunit]
    gcongr
  · rw [hunit]
    gcongr
  · rw [hunit, hunit] at hend
    have hclosed := hends (hend.imp (mul_right_cancel₀ hpos.ne') (mul_right_cancel₀ hpos.ne'))
    rw [Nat.even_iff]
    simpa [Interval.of] using hclosed

/-- With seventeen digits the grid is finer than the interval is wide. -/
theorem wide_of_precision_le (hf : f.precision ≤ 53) (h : f.Canonical m e) (hm : m ≠ 0) :
    1 < (((Interval.of f m e).high : ℚ) - (Interval.of f m e).low) *
      (gridUnit (e - 2) (Int.log 10 (m * (2 : ℚ) ^ e)) 17).value := by
  have hbounds := (scaled_bounds (q := m * (2 : ℚ) ^ e) (by positivity) (show 0 < 17 by decide)).1
  rw [← center_of f m e] at hbounds
  have hpos : 0 < (gridUnit (e - 2) (Int.log 10 (m * (2 : ℚ) ^ e)) 17).value := by
    rw [value_gridUnit]
    positivity
  generalize (gridUnit (e - 2) (Int.log 10 (m * (2 : ℚ) ^ e)) 17).value = u at hbounds hpos ⊢
  have hcenter : ((Interval.of f m e).center : ℚ) = 4 * m := by simp [Interval.of]
  rw [hcenter] at hbounds
  rw [low_of f hm, high_of, Format.quartersBelow]
  norm_num at hbounds
  split
  · rename_i hleading
    have hpow : 2 ^ (f.precision - 1) ≤ 2 ^ 52 := Nat.pow_le_pow_right Nat.two_pos (by omega)
    rw [← hleading] at hpow
    have hm' : (m : ℚ) ≤ 2 ^ 52 := by exact_mod_cast hpow
    have hle : 4 * m * u ≤ 4 * 2 ^ 52 * u := by gcongr
    push_cast
    norm_num at hle
    linarith
  · have hm' : (m : ℚ) ≤ 2 ^ 53 := by
      exact_mod_cast h.lt.le.trans (Nat.pow_le_pow_right Nat.two_pos hf)
    have hle : 4 * m * u ≤ 4 * 2 ^ 53 * u := by gcongr
    push_cast
    norm_num at hle
    linarith

/-- The neighbour has the digits of its grid, or has grown to the next power of ten. -/
theorem coefficient_bounds (hm : m ≠ 0) {count : ℕ} (hcount : 0 < count)
    (hx : x = Int.log 10 (m * (2 : ℚ) ^ e))
    (hbelow : (Interval.of f m e).center * (gridUnit (e - 2) x count).num /
      (gridUnit (e - 2) x count).den ≤ c)
    (habove : c ≤ (Interval.of f m e).center * (gridUnit (e - 2) x count).num /
      (gridUnit (e - 2) x count).den + 1) :
    10 ^ (count - 1) ≤ c ∧ c ≤ 10 ^ count := by
  obtain ⟨hlower, hupper⟩ := scaled_bounds (q := m * (2 : ℚ) ^ e) (by positivity) hcount
  rw [← hx, ← center_of f m e] at hlower hupper
  have hden := den_gridUnit_pos (e - 2) x count
  have hlower' := (cast_mul_value hden _ _).2.2.2 hlower
  have hupper' := mt (cast_mul_value hden _ _).2.2.1 (not_le.2 hupper)
  rw [← Nat.le_div_iff_mul_le hden] at hlower'
  rw [← Nat.le_div_iff_mul_le hden, not_le] at hupper'
  omega

theorem digits_of_search (hm : m ≠ 0) {d : Char} {rest : List Char}
    (h : search (.of f m e) (Int.log 10 (m * (2 : ℚ) ^ e)) 1 maxDigits = ⟨d :: rest, x⟩) :
    digits f m e = ⟨d :: trimmed rest, x⟩ := by
  have hvalue := Ratio.value_ofBinary m e
  have hnum : 0 < (Ratio.ofBinary m e).num := by
    refine Ratio.num_pos_of_value_pos ?_
    rw [hvalue]
    positivity
  rw [digits, if_neg hm, exponentOf_eq_log hnum (Ratio.den_ofBinary_pos m e), hvalue]
  simp only [h]
  rfl

theorem digits_zero (f : Format) (e : ℤ) : digits f 0 e = ⟨['0'], 0⟩ := rfl

theorem within_zero (f : Format) (e : ℤ) : f.Within 0 e 0 where
  lower := by
    have hpos : (0 : ℚ) < 2 ^ (e - 2) := by positivity
    have hquarters : (0 : ℚ) ≤ f.quartersBelow 0 := by positivity
    push_cast
    nlinarith
  upper := by positivity
  ends _ := ⟨0, rfl⟩

/-- The shortest digits of a number that is not zero: the search finds digits that are read as the
number, and what is trimmed does not count. -/
theorem digits_spec (hf : f.precision ≤ 53) (h : f.Canonical m e) (hm : m ≠ 0) :
    (digits f m e).Normal ∧ f.Within m e (digits f m e).value := by
  obtain ⟨x, hx⟩ : ∃ x, x = Int.log 10 (m * (2 : ℚ) ^ e) := ⟨_, rfl⟩
  have hlast := exists_neighbour? (den_gridUnit_pos (e - 2) x 17)
    (hx ▸ wide_of_precision_le hf h hm)
  obtain ⟨n, c, hn, hneighbour, hsearch⟩ :=
    search_spec (.of f m e) x hlast (show 1 ≤ 17 by decide) (show 17 < 1 + maxDigits by decide)
  have hlow : (Interval.of f m e).low < (Interval.of f m e).center := by
    simp only [Interval.of]
    split <;> omega
  have hhigh : (Interval.of f m e).center < (Interval.of f m e).high := by
    simp only [Interval.of]
    omega
  obtain ⟨hcontains, hbelow, habove⟩ := neighbour?_eq_some (den_gridUnit_pos ..)
    (num_gridUnit_pos ..) hlow hhigh hneighbour
  obtain ⟨hlower, hupper⟩ := coefficient_bounds hm hn hx hbelow habove
  obtain ⟨d, rest, y, hof, hall, hd, hvalue⟩ := exists_ofCoefficient_eq_cons hn hlower hupper x
  obtain ⟨hfirst, hrest⟩ := List.forall_mem_cons.1 hall
  rw [digits_of_search hm (hx ▸ hsearch.trans hof)]
  constructor
  · exact .digits y (List.forall_mem_cons.2 ⟨hfirst, IsDigits.trimmed hrest⟩) hd
      (getLast?_trimmed rest)
  · rw [Scientific.value_trimmed, hvalue]
    exact within_of_contains hm hcontains

/-- The shortest digits are in normal form, and are read as the number. -/
theorem digits_reads (hf : f.Proper) (hprecision : f.precision ≤ 53) (h : f.Canonical m e) :
    (digits f m e).Normal ∧ f.Reads (digits f m e).value m e := by
  by_cases hm : m = 0
  · subst hm
    rw [digits_zero, Scientific.value_zero]
    exact ⟨.zero, (within_zero f e).reads hf h⟩
  · obtain ⟨hnormal, hwithin⟩ := digits_spec hprecision h hm
    exact ⟨hnormal, hwithin.reads hf h⟩

end Shortest

end MachInspect.Decimal
