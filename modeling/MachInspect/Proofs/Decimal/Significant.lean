-- SUMMARY: Numbers shown with six significant digits are rounded once, half to even.
import MachInspect.Proofs.Decimal.Layout

/-!
# Significant digits

A number is rounded to six significant digits to find its decimal exponent, and the positional
layout rounds the number itself once more, to as many places. Both roundings agree, also when the
first one has carried into a new digit: then the number is so near to a power of ten that the
coarser grid has the same nearest point.
-/
namespace MachInspect.Decimal

open Text

/-! ## Coefficients -/

section Coefficients

variable {c count : ℕ}

/-- The digits of a coefficient, after a carry has been moved to the exponent. -/
theorem ofCoefficient_eq (hcount : 0 < count) (hlower : 10 ^ (count - 1) ≤ c)
    (hupper : c ≤ 10 ^ count) (x : ℤ) :
    ∃ c', 10 ^ (count - 1) ≤ c' ∧ c' < 10 ^ count ∧
      ((c' = c ∧ Scientific.ofCoefficient count c x = ⟨Nat.toDigits 10 c', x⟩) ∨
       (c = 10 * c' ∧ Scientific.ofCoefficient count c x = ⟨Nat.toDigits 10 c', x + 1⟩)) := by
  obtain ⟨k, rfl⟩ : ∃ k, count = k + 1 := ⟨count - 1, by omega⟩
  rw [Scientific.ofCoefficient]
  split
  · rename_i hcarry
    exact ⟨10 ^ k, le_refl _, Nat.pow_lt_pow_succ (by decide),
      .inr ⟨by rw [hcarry, Nat.pow_succ, Nat.mul_comm], rfl⟩⟩
  · rename_i hne
    exact ⟨c, hlower, by omega, .inl ⟨rfl, rfl⟩⟩

/-- The digits of a coefficient stand for it, whether or not it has grown. -/
theorem exists_ofCoefficient_eq_cons (hcount : 0 < count) (hlower : 10 ^ (count - 1) ≤ c)
    (hupper : c ≤ 10 ^ count) (x : ℤ) :
    ∃ d rest y, Scientific.ofCoefficient count c x = ⟨d :: rest, y⟩ ∧ IsDigits (d :: rest) ∧
      d ≠ '0' ∧ Scientific.value ⟨d :: rest, y⟩ = c * 10 ^ (x - ((count : ℤ) - 1)) := by
  have hten : (10 : ℚ) ≠ 0 := by norm_num
  obtain ⟨c', hlower', hupper', hcases⟩ := ofCoefficient_eq hcount hlower hupper x
  obtain ⟨k, rfl⟩ : ∃ k, count = k + 1 := ⟨count - 1, by omega⟩
  obtain ⟨d, rest, hdigits, hd, hlength⟩ := exists_toDigits_eq_cons hlower' hupper'
  have hvalue (y : ℤ) : Scientific.value ⟨d :: rest, y⟩ = c' * 10 ^ (y - k) := by
    rw [Scientific.value_cons, ← hdigits, Nat.ofDigitChars_ten_toDigits, hlength,
      Nat.add_sub_cancel]
  have hk : ((k + 1 : ℕ) : ℤ) - 1 = k := by omega
  have hall : IsDigits (d :: rest) := hdigits ▸ isDigits_toDigits c'
  rw [hk]
  obtain ⟨rfl, hof⟩ | ⟨rfl, hof⟩ := hcases
  · exact ⟨d, rest, x, by rw [hof, hdigits], hall, hd, hvalue x⟩
  · refine ⟨d, rest, x + 1, by rw [hof, hdigits], hall, hd, ?_⟩
    rw [hvalue, add_sub_right_comm, zpow_add_one₀ hten]
    push_cast
    ring

end Coefficients

/-! ## Rounding to significant digits -/

section Significant

variable {r : Ratio} {count : ℕ}

/-- Rounding to significant digits: the digits are those of the nearest coefficient on the grid that
the exponent of the result gives, and the exponent is that of the result. -/
theorem significant_spec (hcount : 0 < count) (hnum : 0 < r.num) (hden : 0 < r.den) :
    ∃ c x, significant count r = ⟨Nat.toDigits 10 c, x⟩ ∧
      10 ^ (count - 1) ≤ c ∧ c < 10 ^ count ∧
      IsNearest (r.value * 10 ^ ((count : ℤ) - 1 - x)) c ∧
      RoundsTo count r.value (c * 10 ^ (x - ((count : ℤ) - 1))) := by
  have hten : (10 : ℚ) ≠ 0 := by norm_num
  have hpos : 0 < r.value := div_pos (by exact_mod_cast hnum) (by exact_mod_cast hden)
  have hlog := exponentOf_eq_log hnum hden
  obtain ⟨scaled, hscaled⟩ : ∃ s, s = r.scale 10 ((count : ℤ) - 1 - exponentOf r) := ⟨_, rfl⟩
  have hvalue : scaled.value = r.value * 10 ^ ((count : ℤ) - 1 - Int.log 10 r.value) := by
    rw [hscaled, hlog]
    exact_mod_cast Ratio.value_scale (by decide) _ r
  have hnearest : IsNearest scaled.value (roundHalfEven scaled.num scaled.den) :=
    Ratio.isNearest (hscaled ▸ Ratio.den_scale_pos hden (by decide) _)
  obtain ⟨hlower, hupper⟩ := scaled_bounds hpos hcount
  rw [← hvalue] at hlower hupper
  obtain ⟨c, hcLower, hcUpper, hc⟩ := ofCoefficient_eq hcount (hnearest.le_of_le hlower)
    (hnearest.le_of_ge hupper.le) (exponentOf r)
  have hsignificant : significant count r = Scientific.ofCoefficient count
      (roundHalfEven scaled.num scaled.den) (exponentOf r) := by rw [hscaled]; rfl
  rw [hvalue] at hnearest
  obtain ⟨rfl, hdigits⟩ | ⟨hcarry, hdigits⟩ := hc
  · refine ⟨_, _, hsignificant.trans hdigits, hcLower, hcUpper, ?_, _, hnearest, ?_⟩
    · rw [hlog]
      exact hnearest
    · rw [hlog]
  · rw [hcarry] at hnearest
    refine ⟨_, _, hsignificant.trans hdigits, hcLower, hcUpper, ?_, _, hnearest, ?_⟩
    · have hgrid : r.value * (10 : ℚ) ^ ((count : ℤ) - 1 - (exponentOf r + 1)) =
          r.value * 10 ^ ((count : ℤ) - 1 - Int.log 10 r.value) / 10 := by
        rw [hlog, ← sub_sub, zpow_sub_one₀ hten]
        ring
      rw [hgrid]
      exact hnearest.coarser
    · rw [hlog, add_sub_right_comm, zpow_add_one₀ hten]
      push_cast
      ring

end Significant

/-! ## Rounding to places -/

section Fixed

theorem ofDigitChars_paddedDigits (width n : ℕ) :
    Nat.ofDigitChars 10 (paddedDigits 10 width n) 0 = n := by
  rw [paddedDigits, Nat.ofDigitChars_append, Nat.ofDigitChars_replicate_zero, Nat.mul_zero,
    Nat.ofDigitChars_ten_toDigits]

theorem isDigits_paddedDigits (width n : ℕ) : IsDigits (paddedDigits 10 width n) :=
  (isDigits_zeros _).append (isDigits_toDigits n)

theorem succ_le_length_paddedDigits (places n : ℕ) :
    places + 1 ≤ (paddedDigits 10 (places + 1) n).length := by
  simp only [paddedDigits, List.length_append, List.length_replicate]
  omega

/-- A zero before the point stands there alone. -/
theorem take_paddedDigits_eq (places n : ℕ)
    (hzero : (paddedDigits 10 (places + 1) n).head? = some '0') :
    (paddedDigits 10 (places + 1) n).take ((paddedDigits 10 (places + 1) n).length - places) =
      ['0'] := by
  have hlength : (paddedDigits 10 (places + 1) n).length = places + 1 := by
    rw [paddedDigits] at hzero ⊢
    rw [List.length_append, List.length_replicate]
    rcases Nat.lt_or_ge (Nat.toDigits 10 n).length (places + 1) with hshort | hlong
    · omega
    · rw [Nat.sub_eq_zero_of_le hlong, List.replicate_zero, List.nil_append] at hzero
      obtain rfl : n = 0 := Nat.eq_zero_of_not_pos fun hpos => head?_toDigits_ne hpos hzero
      simp only [Nat.toDigits_zero, List.length_singleton] at hlong ⊢
      omega
  obtain ⟨rest, hrest⟩ := List.head?_eq_some_iff.1 hzero
  rw [hlength, hrest, Nat.add_sub_cancel_left]
  rfl

/-- Rounding to places lays out the nearest number on that grid, with zeros in front only up to the
one before the point. -/
theorem fixed_spec (places : ℕ) {r : Ratio} (hden : 0 < r.den) :
    ∃ whole fraction, fixed places r = layout whole fraction ∧
      IsDigits whole ∧ whole ≠ [] ∧ IsDigits fraction ∧ fraction.length = places ∧
      (whole.head? = some '0' → whole = ['0']) ∧
      IsNearest (r.value * 10 ^ (places : ℤ)) (Nat.ofDigitChars 10 (whole ++ fraction) 0) := by
  obtain ⟨n, hn⟩ : ∃ n, n = roundHalfEven (r.scale 10 places).num (r.scale 10 places).den :=
    ⟨_, rfl⟩
  have hnearest : IsNearest (r.value * 10 ^ (places : ℤ)) n := by
    have hvalue : (r.scale 10 places).value = r.value * (10 : ℚ) ^ (places : ℤ) := by
      exact_mod_cast Ratio.value_scale (by decide) places r
    rw [hn, ← hvalue]
    exact Ratio.isNearest (Ratio.den_scale_pos hden (by decide) _)
  have hfixed : fixed places r =
      let padded := paddedDigits 10 (places + 1) n
      let whole := padded.take (padded.length - places)
      if places = 0 then whole else whole ++ '.' :: padded.drop (padded.length - places) := by
    rw [hn]
    rfl
  have hlength := succ_le_length_paddedDigits places n
  have hdigits := isDigits_paddedDigits (places + 1) n
  have hvalue := ofDigitChars_paddedDigits (places + 1) n
  have hleading := take_paddedDigits_eq places n
  generalize paddedDigits 10 (places + 1) n = padded at hfixed hlength hdigits hvalue hleading
  refine ⟨padded.take (padded.length - places), padded.drop (padded.length - places), ?_,
    fun c hc => hdigits c (List.mem_of_mem_take hc), ?_,
    fun c hc => hdigits c (List.mem_of_mem_drop hc), ?_, ?_, ?_⟩
  · rw [hfixed, layout]
    by_cases hzero : places = 0
    · simp [hzero]
    · have hne : padded.drop (padded.length - places) ≠ [] := by
        rw [ne_eq, List.drop_eq_nil_iff]
        omega
      simp only [hzero, hne, if_false]
  · rw [ne_eq, List.take_eq_nil_iff, not_or]
    exact ⟨by omega, List.ne_nil_of_length_pos (by omega)⟩
  · rw [List.length_drop]
    omega
  · rw [List.head?_take, if_neg (by omega)]
    exact hleading
  · rw [List.take_append_drop, hvalue]
    exact hnearest

end Fixed

/-! ## Both layouts -/

section Styles

variable {c : ℕ} {x : ℤ}

/-- The positional layout rounds the number itself, on the grid that the exponent gives. -/
theorem shows_fixed (negative : Bool) {q : Ratio} (hden : 0 < q.den)
    (hnearest : IsNearest (q.value * 10 ^ (5 - x)) c)
    (hlog : Int.log 10 ((c : ℚ) * 10 ^ (x - 5)) = x) (hrange : -4 ≤ x ∧ x < 6) :
    Shows (sign negative ++ stripZeros (fixed (5 - x).toNat q)) negative
      (c * 10 ^ (x - 5)) := by
  obtain ⟨whole, fraction, hfixed, hwhole, hne, hfraction, hlength, hleading, hrounded⟩ :=
    fixed_spec (5 - x).toNat hden
  have hplaces : ((5 - x).toNat : ℤ) = 5 - x := Int.toNat_of_nonneg (by omega)
  rw [hplaces] at hrounded
  have hc : Nat.ofDigitChars 10 (whole ++ fraction) 0 = c := hrounded.unique hnearest
  have htext : sign negative ++ stripZeros (fixed (5 - x).toNat q) =
      written negative whole (trimmed fraction) none := by
    rw [hfixed, stripZeros_layout hwhole hne hfraction, written_none]
  rw [htext]
  refine shows_positional hwhole hne hfraction.trimmed hleading (getLast?_trimmed fraction)
    (by rwa [hlog]) ?_
  rw [ofDigitChars_trimmed, hc, hlength, hplaces]
  congr 2
  ring

/-- The other layout takes the digits as they were rounded. -/
theorem shows_pointed (negative : Bool) {d : Char} {rest : List Char}
    (hdigits : IsDigits (d :: rest)) (hd : d ≠ '0') (hrange : ¬ (-4 ≤ x ∧ x < 6)) :
    Shows (sign negative ++ (stripZeros (Scientific.pointed (d :: rest)) ++ exponentMark x))
      negative (Scientific.value ⟨d :: rest, x⟩) := by
  obtain ⟨hfirst, hrest⟩ := List.forall_mem_cons.1 hdigits
  have hwhole : IsDigits [d] := List.forall_mem_singleton.2 hfirst
  have htext : sign negative ++ (stripZeros (Scientific.pointed (d :: rest)) ++ exponentMark x) =
      written negative [d] (trimmed rest) (some (markOf x)) := by
    rw [pointed_eq_layout, stripZeros_layout hwhole (List.cons_ne_nil d []) hrest, exponentMark_eq]
    rfl
  rw [htext, ← Scientific.value_trimmed, Scientific.value_cons]
  exact shows_exponential (List.forall_mem_cons.2 ⟨hfirst, IsDigits.trimmed hrest⟩) hd
    (getLast?_trimmed rest) hrange

end Styles

end MachInspect.Decimal
