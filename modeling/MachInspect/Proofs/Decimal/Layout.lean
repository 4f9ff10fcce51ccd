-- SUMMARY: The layouts that decimal numbers are written in show the number they were made from.
import MachInspect.Proofs.Decimal.Texts

/-!
# Layout of decimal numbers

Digits are laid out positionally, or with one digit before the point and an exponent mark. Both
layouts are of the general style when the digits have no zeros to be left out, and `stripZeros`
leaves them out. So it only matters which digits are written and how large the number is.
-/
namespace MachInspect.Decimal

open Text

variable {negative : Bool} {whole fraction : List Char} {r : ℚ}

/-! ## Exponent marks -/

/-- What follows the `e` of an exponent mark. -/
def markOf (x : ℤ) : List Char := (if x < 0 then '-' else '+') :: paddedDigits 10 2 x.natAbs

theorem exponentMark_eq (x : ℤ) : exponentMark x = 'e' :: markOf x := rfl

theorem magnitude?_paddedDigits (width n : ℕ) :
    Text.magnitude? 10 (paddedDigits 10 width n) = some n := by
  have hne : paddedDigits 10 width n ≠ [] := by simp [paddedDigits]
  rw [Text.magnitude?, digitsValue?_paddedDigits (by decide) (by decide)]
  exact hne

theorem isMark_markOf (x : ℤ) : IsMark (markOf x) x where
  signed := by
    rw [markOf]
    split
    · exact .inr rfl
    · exact .inl rfl
  two_le := by
    simp only [markOf, paddedDigits, List.tail_cons, List.length_append, List.length_replicate]
    omega
  needed := by
    intro hlong
    have hlength : 2 < (Nat.toDigits 10 x.natAbs).length := by
      simp only [markOf, paddedDigits, List.tail_cons, List.length_append,
        List.length_replicate] at hlong
      omega
    have hpos : 0 < x.natAbs := by
      refine Nat.pos_of_ne_zero fun hzero => ?_
      simp [hzero] at hlength
    rw [markOf, List.tail_cons, paddedDigits, Nat.sub_eq_zero_of_le hlength.le,
      List.replicate_zero, List.nil_append]
    exact head?_toDigits_ne hpos
  value := by
    rw [markOf]
    split
    · rename_i hneg
      have hx : -(x.natAbs : ℤ) = x := by omega
      rw [Numeral.signed?, magnitude?_paddedDigits, Option.map_some, hx]
    · rename_i hnonneg
      have hx : (x.natAbs : ℤ) = x := by omega
      rw [Numeral.signed?, magnitude?_paddedDigits, Option.map_some, hx]

/-! ## Texts in the general style -/

theorem shows_positional (hwhole : IsDigits whole) (hne : whole ≠ [])
    (hfraction : IsDigits fraction) (hleading : whole.head? = some '0' → whole = ['0'])
    (htrailing : fraction.getLast? ≠ some '0')
    (hrange : -4 ≤ Int.log 10 r ∧ Int.log 10 r < 6)
    (hvalue : Nat.ofDigitChars 10 (whole ++ fraction) 0 *
      (10 : ℚ) ^ (0 - (fraction.length : ℤ)) = r) :
    Shows (written negative whole fraction none) negative r where
  denotes := by rw [denotes?_written hwhole hne hfraction negative none (x := 0) rfl, hvalue]
  positional_iff := by simp [ofText_written hwhole hne hfraction, hrange]
  scientific := by simp [ofText_written hwhole hne hfraction]
  no_leading_zero := by simpa [ofText_written hwhole hne hfraction] using hleading
  no_trailing_zero := by
    intro ds hds
    rw [ofText_written hwhole hne hfraction] at hds
    split at hds
    · cases hds
    · cases hds
      exact ⟨by assumption, htrailing⟩

theorem shows_exponential {c : Char} {rest : List Char} (h : IsDigits (c :: rest)) (hc : c ≠ '0')
    (htrailing : rest.getLast? ≠ some '0') {x : ℤ} (hrange : ¬ (-4 ≤ x ∧ x < 6)) :
    Shows (written negative [c] rest (some (markOf x))) negative
      (Nat.ofDigitChars 10 (c :: rest) 0 * (10 : ℚ) ^ (x - rest.length)) := by
  obtain ⟨hfirst, hrest⟩ := List.forall_mem_cons.1 h
  have hwhole : IsDigits [c] := List.forall_mem_singleton.2 hfirst
  have hparts := ofText_written hwhole (List.cons_ne_nil c []) hrest negative (some (markOf x))
  have hlog := log_ofDigitChars h hc x
  exact {
    denotes := denotes?_written hwhole (List.cons_ne_nil c []) hrest negative (some (markOf x))
      (isMark_markOf x).value
    positional_iff := by simp [hparts, hlog, hrange]
    scientific := by simp [hparts, hlog, isMark_markOf]
    no_leading_zero := by simp [hparts, hc]
    no_trailing_zero := by
      intro ds hds
      rw [hparts] at hds
      split at hds
      · cases hds
      · cases hds
        exact ⟨by assumption, htrailing⟩ }

/-! ## Zeros left out -/

theorem pointed_eq_layout (c : Char) (rest : List Char) :
    Scientific.pointed (c :: rest) = layout [c] rest := by
  cases rest with
  | nil => rfl
  | cons d rest => rfl

theorem dropWhile_point {ds : List Char} (h : IsDigits ds) (hne : ds ≠ []) (back : List Char) :
    (ds ++ back).dropWhile (· == '.') = ds ++ back := by
  obtain ⟨c, rest, rfl⟩ := List.exists_cons_of_ne_nil hne
  have hc : c ≠ '.' := by
    rintro rfl
    exact h.notMem (by decide) List.mem_cons_self
  simp [hc]

theorem stripZeros_layout (hwhole : IsDigits whole) (hne : whole ≠ [])
    (hfraction : IsDigits fraction) :
    stripZeros (layout whole fraction) = layout whole (trimmed fraction) := by
  by_cases hnil : fraction = []
  · have hpoint : '.' ∉ whole := hwhole.notMem (by decide)
    simp [hnil, layout, stripZeros, hpoint, trimmed]
  · obtain ⟨kept, hkept⟩ : ∃ kept, kept = fraction.reverse.dropWhile (· == '0') := ⟨_, rfl⟩
    have htrimmed : trimmed fraction = kept.reverse := by rw [hkept]; rfl
    have hreverse :
        (whole ++ '.' :: fraction).reverse = fraction.reverse ++ '.' :: whole.reverse := by
      simp
    have hdigits : IsDigits whole.reverse := fun c hc => hwhole c (List.mem_reverse.1 hc)
    rw [layout, if_neg hnil, stripZeros, if_pos (by simp), hreverse, List.dropWhile_append, ← hkept,
      htrimmed]
    cases hk : kept with
    | nil =>
      have hback := dropWhile_point hdigits (by simpa using hne) []
      simp only [List.append_nil] at hback
      simp [layout, hback]
    | cons c rest =>
      have hdigits' : IsDigits kept := by
        intro d hd
        exact hfraction.trimmed d (htrimmed ▸ List.mem_reverse.2 hd)
      have hback := dropWhile_point hdigits' (by simp [hk]) ('.' :: whole.reverse)
      rw [hk] at hback
      simp only [List.isEmpty_cons, Bool.false_eq_true, if_false]
      rw [hback]
      simp [layout]

/-! ## Digits with an exponent -/

theorem isPositional_iff (x : ℤ) : isPositional x = true ↔ -4 ≤ x ∧ x < 6 := by
  simp [isPositional]

namespace Scientific

variable {s : Scientific} {d : Char} {ds : List Char} {x : ℤ}

/-- The number that the digits stand for. -/
def value (s : Scientific) : ℚ :=
  Nat.ofDigitChars 10 s.digits 0 * 10 ^ (s.exponent + 1 - s.digits.length)

/-- There is no zero in front and none at the end, or the number is zero. -/
inductive Normal : Scientific → Prop
  | zero : Normal ⟨['0'], 0⟩
  | digits {d : Char} {ds : List Char} (x : ℤ) (hdigits : IsDigits (d :: ds)) (hleading : d ≠ '0')
      (htrailing : ds.getLast? ≠ some '0') : Normal ⟨d :: ds, x⟩

theorem value_cons (d : Char) (ds : List Char) (x : ℤ) :
    value ⟨d :: ds, x⟩ = Nat.ofDigitChars 10 (d :: ds) 0 * 10 ^ (x - ds.length) := by
  rw [value, List.length_cons]
  push_cast
  rw [add_sub_add_right_eq_sub]

theorem value_zero : value ⟨['0'], 0⟩ = 0 := by
  simp [value_cons, Nat.ofDigitChars_cons]

/-- Zeros at the end do not count. -/
theorem value_trimmed (d : Char) (rest : List Char) (x : ℤ) :
    value ⟨d :: trimmed rest, x⟩ = value ⟨d :: rest, x⟩ := by
  have htrimmed := ofDigitChars_trimmed [d] rest x
  rw [List.singleton_append, List.singleton_append] at htrimmed
  rw [value_cons, value_cons, htrimmed]

theorem Normal.log_value (h : s.Normal) : Int.log 10 s.value = s.exponent := by
  cases h with
  | zero => rw [value_zero, Int.log_zero_right]
  | digits x hdigits hleading _ => rw [value_cons, log_ofDigitChars hdigits hleading]

/-- `d.ddde-7`: the exponent as a plain number. -/
def plain (s : Scientific) : List Char :=
  pointed s.digits ++ 'e' :: (signedDecimal s.exponent).toList

theorem signed?_signedDecimal (x : ℤ) : Numeral.signed? (signedDecimal x).toList = some x := by
  rw [signedDecimal]
  split
  · rename_i hneg
    have hx : -(x.natAbs : ℤ) = x := by omega
    have htext : ("-" ++ decimal x.natAbs).toList = '-' :: Nat.toDigits 10 x.natAbs := by
      simp [decimal]
    rw [htext, Numeral.signed?, magnitude?_toDigits, Option.map_some, hx]
  · rename_i hnonneg
    have hx : (x.natAbs : ℤ) = x := by omega
    rw [decimal, String.toList_ofList, Numeral.signed?, magnitude?_toDigits, Option.map_some, hx]
    · exact fun _ => toDigits_ne_cons (by decide) _ _
    · exact fun _ => toDigits_ne_cons (by decide) _ _

theorem denotes?_pointed (hdigits : IsDigits (d :: ds)) (negative : Bool) {mark : List Char}
    (hmark : Numeral.signed? mark = some x) :
    denotes? (sign negative ++ (pointed (d :: ds) ++ 'e' :: mark)) =
      some (negative, value ⟨d :: ds, x⟩) := by
  obtain ⟨hfirst, hrest⟩ := List.forall_mem_cons.1 hdigits
  rw [pointed_eq_layout, value_cons]
  exact denotes?_written (List.forall_mem_singleton.2 hfirst) (List.cons_ne_nil d []) hrest negative
    (some mark) hmark

theorem Normal.denotes?_plain (h : s.Normal) (negative : Bool) :
    denotes? (sign negative ++ s.plain) = some (negative, s.value) := by
  cases h with
  | zero => exact denotes?_pointed (isDigits_zeros 1) negative (signed?_signedDecimal 0)
  | digits x hdigits _ _ => exact denotes?_pointed hdigits negative (signed?_signedDecimal x)

theorem getLast?_cons_ne (hd : d ≠ '0') (htrailing : ds.getLast? ≠ some '0') :
    (d :: ds).getLast? ≠ some '0' := by
  cases ds with
  | nil => simpa using hd
  | cons c rest => rwa [List.getLast?_cons_cons]

/-- The digits all stand behind the point. -/
theorem shows_small (negative : Bool) (hdigits : IsDigits (d :: ds)) (hleading : d ≠ '0')
    (htrailing : ds.getLast? ≠ some '0') (zeros : ℕ) (hzeros : zeros < 4) :
    Shows (written negative ['0'] (List.replicate zeros '0' ++ d :: ds) none) negative
      (value ⟨d :: ds, -1 - zeros⟩) := by
  have hlog := log_ofDigitChars hdigits hleading (-1 - zeros)
  rw [value_cons]
  refine shows_positional (isDigits_zeros 1) (List.cons_ne_nil _ _)
    ((isDigits_zeros zeros).append hdigits) (fun _ => rfl) ?_ (by omega) ?_
  · rw [List.getLast?_append_of_ne_nil _ (List.cons_ne_nil d ds)]
    exact getLast?_cons_ne hleading htrailing
  · rw [← List.append_assoc, Nat.ofDigitChars_append, ← List.replicate_one,
      List.replicate_append_replicate, Nat.ofDigitChars_replicate_zero, Nat.mul_zero]
    congr 2
    rw [List.length_append, List.length_replicate, List.length_cons]
    push_cast
    ring

/-- The digits all stand before the point, and zeros behind them. -/
theorem shows_large (negative : Bool) (hdigits : IsDigits (d :: ds)) (hleading : d ≠ '0')
    (zeros : ℕ) (hsmall : ds.length + zeros < 6) :
    Shows (written negative (d :: ds ++ List.replicate zeros '0') [] none) negative
      (value ⟨d :: ds, ds.length + zeros⟩) := by
  have hlog := log_ofDigitChars hdigits hleading (ds.length + zeros)
  rw [value_cons]
  refine shows_positional (hdigits.append (isDigits_zeros zeros)) (by simp)
    (List.forall_mem_nil _) (by simp [hleading]) (by simp) (by omega) ?_
  rw [List.append_nil, Nat.ofDigitChars_append, Nat.ofDigitChars_replicate_zero]
  rw [List.length_nil, Nat.cast_zero, sub_zero, zpow_zero, mul_one, add_sub_cancel_left,
    zpow_natCast]
  push_cast
  ring

/-- The point stands between the digits. -/
theorem shows_between (negative : Bool) (hdigits : IsDigits (d :: ds)) (hleading : d ≠ '0')
    (htrailing : ds.getLast? ≠ some '0') {n : ℕ} (hn : n < 6) (hlt : n < ds.length) :
    Shows (written negative (d :: ds.take n) (ds.drop n) none) negative
      (value ⟨d :: ds, n⟩) := by
  have hlog := log_ofDigitChars hdigits hleading n
  obtain ⟨hfirst, hrest⟩ := List.forall_mem_cons.1 hdigits
  rw [value_cons]
  refine shows_positional
    (List.forall_mem_cons.2 ⟨hfirst, fun c hc => hrest c (List.mem_of_mem_take hc)⟩)
    (List.cons_ne_nil _ _) (fun c hc => hrest c (List.mem_of_mem_drop hc)) (by simp [hleading]) ?_
    (by omega) ?_
  · rwa [List.getLast?_drop, if_neg (by omega)]
  · rw [List.cons_append, List.take_append_drop, List.length_drop]
    congr 2
    omega

theorem positional_of_nonpos (hx : x + 1 ≤ 0) :
    positional ⟨d :: ds, x⟩ = layout ['0'] (List.replicate (x + 1).natAbs '0' ++ d :: ds) := by
  simp [positional, hx, layout]

theorem positional_of_pos (hx : ¬ x + 1 ≤ 0) :
    positional ⟨d :: ds, x⟩ =
      if ds.length ≤ x.toNat then layout (d :: ds ++ List.replicate (x.toNat - ds.length) '0') []
      else layout (d :: ds.take x.toNat) (ds.drop x.toNat) := by
  have hwhole : (x + 1).toNat = x.toNat + 1 := by omega
  simp only [positional, hx, if_false, hwhole, List.length_cons, Nat.add_le_add_iff_right,
    List.take_succ_cons, List.drop_succ_cons, Nat.add_sub_add_right]
  split
  · rfl
  · rename_i hlt
    have hne : ds.drop x.toNat ≠ [] := by
      rw [ne_eq, List.drop_eq_nil_iff]
      omega
    rw [layout, if_neg hne]

/-- Digits are moved across the point, and keep their value. -/
theorem shows_positional_digits (hdigits : IsDigits (d :: ds)) (hleading : d ≠ '0')
    (htrailing : ds.getLast? ≠ some '0') (hrange : -4 ≤ x ∧ x < 6) (negative : Bool) :
    Shows (sign negative ++ positional ⟨d :: ds, x⟩) negative
      (value ⟨d :: ds, x⟩) := by
  by_cases hx : x + 1 ≤ 0
  · have hshows := shows_small negative hdigits hleading htrailing (x + 1).natAbs (by omega)
    rw [show (-1 - ((x + 1).natAbs : ℤ)) = x by omega] at hshows
    rwa [positional_of_nonpos hx, ← written_none]
  · rw [positional_of_pos hx]
    split
    · rename_i hle
      have hshows := shows_large negative hdigits hleading (x.toNat - ds.length) (by omega)
      rw [show ((ds.length : ℤ) + (x.toNat - ds.length : ℕ)) = x by omega] at hshows
      rwa [← written_none]
    · rename_i hlt
      have hshows := shows_between negative hdigits hleading htrailing
        (n := x.toNat) (by omega) (by omega)
      rw [show (x.toNat : ℤ) = x by omega] at hshows
      rwa [← written_none]

theorem Normal.shows (h : s.Normal) (negative : Bool) :
    Shows (sign negative ++
      if isPositional s.exponent then s.positional else s.exponential) negative s.value := by
  cases h with
  | zero =>
    rw [value_zero]
    change Shows (written negative ['0'] [] none) negative 0
    exact shows_positional (isDigits_zeros 1) (List.cons_ne_nil _ _)
      (List.forall_mem_nil _) (fun _ => rfl) (by simp) (by simp) (by simp [Nat.ofDigitChars_cons])
  | digits x hdigits hleading htrailing =>
    split
    · rename_i hpositional
      exact shows_positional_digits hdigits hleading htrailing ((isPositional_iff x).1 hpositional)
        negative
    · rename_i hscientific
      rw [exponential, pointed_eq_layout, exponentMark_eq, value_cons]
      exact shows_exponential hdigits hleading htrailing (mt (isPositional_iff x).2 hscientific)

end Scientific

end MachInspect.Decimal
