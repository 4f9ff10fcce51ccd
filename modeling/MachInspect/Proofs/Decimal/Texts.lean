-- SUMMARY: Which number a decimal text denotes, and the layout of texts in the general style.
import MachInspect.Proofs.Decimal.Rationals
import MachInspect.Proofs.Text.Numerals
import MachInspect.Proofs.Text.Separators
import Mathlib.Data.List.DropRight

/-!
# Decimal texts

`denotes?` reads a decimal text, and is independent of how texts are written: a sign, digits with at
most one point, and an exponent. A text has the general style for a number (`Shows`) if it denotes
that number, is positional exactly for decimal exponents from -4 to 5, and has no digit that could
be left out.
-/
namespace MachInspect.Decimal

open Text

/-! ## Reading -/

/-- A decimal text, cut at its marks. -/
structure Numeral where
  negative : Bool
  /-- What stands before the point. -/
  whole : List Char
  /-- What stands after the point, if there is a point. -/
  fraction : Option (List Char)
  /-- What stands after the exponent mark, if there is one. -/
  exponent : Option (List Char)
  deriving DecidableEq, Repr

namespace Numeral

/-- The text before the first `sep`, and what follows if there is one. -/
def cut (sep : Char) (cs : List Char) : List Char × Option (List Char) :=
  match Anchor.splitOnce? sep cs with
  | some (before, after) => (before, some after)
  | none => (cs, none)

/-- The parts of a text whose sign has been taken off. -/
def unsigned (negative : Bool) (text : List Char) : Numeral :=
  let (mantissa, exponent) := cut 'e' text
  let (whole, fraction) := cut '.' mantissa
  ⟨negative, whole, fraction, exponent⟩

def ofText : List Char → Numeral
  | '-' :: text => unsigned true text
  | text => unsigned false text

/-- Digits with an optional sign. -/
def signed? : List Char → Option ℤ
  | '-' :: ds => (Text.magnitude? 10 ds).map fun n : ℕ => -(n : ℤ)
  | '+' :: ds => (Text.magnitude? 10 ds).map fun n : ℕ => (n : ℤ)
  | ds => (Text.magnitude? 10 ds).map fun n : ℕ => (n : ℤ)

/-- The number without its sign, if all parts are numerals. -/
def magnitude? (n : Numeral) : Option ℚ := do
  let whole ← Text.magnitude? 10 n.whole
  let fraction ← n.fraction.elim (some 0) fun ds =>
    (Text.magnitude? 10 ds).map fun v : ℕ => (v : ℚ) / (10 : ℚ) ^ ds.length
  let exponent ← n.exponent.elim (some 0) signed?
  return (whole + fraction) * (10 : ℚ) ^ exponent

end Numeral

/-- The sign and the magnitude that a text denotes. -/
def denotes? (text : List Char) : Option (Bool × ℚ) :=
  (Numeral.ofText text).magnitude?.map ((Numeral.ofText text).negative, ·)

/-- An exponent of at least two digits with its sign; more digits only if they are needed. -/
structure IsMark (mark : List Char) (x : ℤ) : Prop where
  signed : mark.head? = some '+' ∨ mark.head? = some '-'
  two_le : 2 ≤ mark.tail.length
  needed : 2 < mark.tail.length → mark.tail.head? ≠ some '0'
  value : Numeral.signed? mark = some x

/-- The text shows the number of this sign and magnitude in the general style. -/
structure Shows (text : List Char) (negative : Bool) (r : ℚ) : Prop where
  denotes : denotes? text = some (negative, r)
  positional_iff : (Numeral.ofText text).exponent = none ↔ -4 ≤ Int.log 10 r ∧ Int.log 10 r < 6
  /-- Otherwise one digit stands before the point, and the exponent follows with its sign. -/
  scientific : ∀ mark ∈ (Numeral.ofText text).exponent,
    IsMark mark (Int.log 10 r) ∧ (Numeral.ofText text).whole.length = 1
  no_leading_zero : (Numeral.ofText text).whole.head? = some '0' →
    (Numeral.ofText text).whole = ['0']
  /-- There is no zero at the end of the fraction, and no point without a fraction. -/
  no_trailing_zero : ∀ ds ∈ (Numeral.ofText text).fraction, ds ≠ [] ∧ ds.getLast? ≠ some '0'

/-- A text shows one number only. -/
theorem Shows.unique {text : List Char} {negative : Bool} {r r' : ℚ} (h : Shows text negative r)
    (h' : Shows text negative r') : r = r' := by
  have hdenotes := h.denotes
  rw [h'.denotes] at hdenotes
  exact (Prod.mk.inj (Option.some.inj hdenotes)).2.symm

/-! ## Digits -/

section Digits

/-- Nothing but decimal digits. -/
def IsDigits (cs : List Char) : Prop := ∀ c ∈ cs, c.isDigit = true

instance (cs : List Char) : Decidable (IsDigits cs) :=
  decidable_of_iff (cs.all Char.isDigit = true) List.all_eq_true

variable {ds whole fraction : List Char}

theorem IsDigits.notMem (h : IsDigits ds) {c : Char} (hc : c.isDigit = false) : c ∉ ds := by
  intro hmem
  exact absurd ((h c hmem).symm.trans hc) (by decide)

theorem IsDigits.append (h : IsDigits whole) (h' : IsDigits fraction) :
    IsDigits (whole ++ fraction) := by
  intro c hc
  exact (List.mem_append.1 hc).elim (h c) (h' c)

theorem isDigits_toDigits (n : ℕ) : IsDigits (Nat.toDigits 10 n) := fun _ =>
  Nat.isDigit_of_mem_toDigits (by decide) (by decide)

theorem isDigits_zeros (k : ℕ) : IsDigits (List.replicate k '0') := by
  intro c hc
  rw [(List.mem_replicate.1 hc).2]
  decide

theorem digitValue?_of_isDigit {c : Char} (hc : c.isDigit = true) :
    digitValue? 10 c = some (c.toNat - '0'.toNat) := by
  obtain ⟨hlower, hupper⟩ := Char.isDigit_iff_toNat.1 hc
  have hten : c.toNat - '0'.toNat < 10 := by simp only [Char.reduceToNat] at *; omega
  have hle : '0' ≤ c := hlower
  have hle' : c ≤ '9' := hupper
  simp only [digitValue?, hle, hle', true_and, if_true, Option.bind_some, hten]

theorem digitsValue?_of_isDigits (h : IsDigits ds) (acc : ℕ) :
    digitsValue? 10 acc ds = some (Nat.ofDigitChars 10 ds acc) := by
  induction ds generalizing acc with
  | nil => rfl
  | cons c rest ih =>
    obtain ⟨hc, hrest⟩ := List.forall_mem_cons.1 h
    rw [digitsValue?, digitValue?_of_isDigit hc, Option.bind_some, ih hrest,
      Nat.ofDigitChars_cons, Nat.mul_comm]

theorem magnitude?_of_isDigits (h : IsDigits ds) (hne : ds ≠ []) :
    Text.magnitude? 10 ds = some (Nat.ofDigitChars 10 ds 0) := by
  obtain ⟨c, rest, rfl⟩ := List.exists_cons_of_ne_nil hne
  exact digitsValue?_of_isDigits h 0

theorem ofDigitChars_append_eq (whole fraction : List Char) :
    Nat.ofDigitChars 10 (whole ++ fraction) 0 =
      Nat.ofDigitChars 10 whole 0 * 10 ^ fraction.length + Nat.ofDigitChars 10 fraction 0 := by
  rw [Nat.ofDigitChars_append, Nat.ofDigitChars_eq_ofDigitChars_zero, Nat.mul_comm]

theorem ofDigitChars_cons_eq (c : Char) (rest : List Char) :
    Nat.ofDigitChars 10 (c :: rest) 0 =
      (c.toNat - '0'.toNat) * 10 ^ rest.length + Nat.ofDigitChars 10 rest 0 := by
  have hfirst : Nat.ofDigitChars 10 [c] 0 = c.toNat - '0'.toNat := by
    rw [Nat.ofDigitChars_cons, Nat.ofDigitChars_nil, Nat.mul_zero, Nat.zero_add]
  rw [← hfirst, ← ofDigitChars_append_eq, List.singleton_append]

theorem ofDigitChars_lt (h : IsDigits ds) : Nat.ofDigitChars 10 ds 0 < 10 ^ ds.length := by
  induction ds with
  | nil => decide
  | cons c rest ih =>
    obtain ⟨hc, hrest⟩ := List.forall_mem_cons.1 h
    have hupper := (Char.isDigit_iff_toNat.1 hc).2
    have hdigit : c.toNat - '0'.toNat ≤ 9 := by simp only [Char.reduceToNat] at *; omega
    calc Nat.ofDigitChars 10 (c :: rest) 0
        = (c.toNat - '0'.toNat) * 10 ^ rest.length + Nat.ofDigitChars 10 rest 0 :=
          ofDigitChars_cons_eq c rest
      _ < 9 * 10 ^ rest.length + 10 ^ rest.length :=
          Nat.add_lt_add_of_le_of_lt (Nat.mul_le_mul_right _ hdigit) (ih hrest)
      _ = 10 ^ (c :: rest).length := by rw [List.length_cons, Nat.pow_succ]; ring

theorem le_ofDigitChars {c : Char} {rest : List Char} (h : IsDigits (c :: rest)) (hc : c ≠ '0') :
    10 ^ rest.length ≤ Nat.ofDigitChars 10 (c :: rest) 0 := by
  have hlower := (Char.isDigit_iff_toNat.1 (h c List.mem_cons_self)).1
  have hne : c.toNat ≠ '0'.toNat := fun h => hc (Char.toNat_inj.1 h)
  have hdigit : 1 ≤ c.toNat - '0'.toNat := by omega
  calc 10 ^ rest.length ≤ (c.toNat - '0'.toNat) * 10 ^ rest.length :=
        Nat.le_mul_of_pos_left _ hdigit
    _ ≤ Nat.ofDigitChars 10 (c :: rest) 0 := by
        rw [ofDigitChars_cons_eq]
        exact Nat.le_add_right ..

/-- Digits that do not start with a zero have the decimal exponent that is written behind them. -/
theorem log_ofDigitChars {c : Char} {rest : List Char} (h : IsDigits (c :: rest)) (hc : c ≠ '0')
    (x : ℤ) :
    Int.log 10 ((Nat.ofDigitChars 10 (c :: rest) 0 : ℚ) * 10 ^ (x - rest.length)) = x := by
  have hten : (10 : ℚ) ≠ 0 := by norm_num
  have hlower : (10 : ℚ) ^ rest.length ≤ Nat.ofDigitChars 10 (c :: rest) 0 := by
    exact_mod_cast le_ofDigitChars h hc
  have hupper : (Nat.ofDigitChars 10 (c :: rest) 0 : ℚ) < 10 ^ (rest.length + 1) := by
    exact_mod_cast ofDigitChars_lt h
  refine log_eq_of_le_of_lt ?_ ?_
  · calc (10 : ℚ) ^ x = 10 ^ rest.length * 10 ^ (x - rest.length) := by
          rw [← zpow_natCast, ← zpow_add₀ hten]
          congr 1
          ring
      _ ≤ _ := by gcongr
  · calc (Nat.ofDigitChars 10 (c :: rest) 0 : ℚ) * 10 ^ (x - rest.length)
        < 10 ^ (rest.length + 1) * 10 ^ (x - rest.length) := by gcongr
      _ = 10 ^ (x + 1) := by
          rw [← zpow_natCast, ← zpow_add₀ hten]
          congr 1
          push_cast
          ring

/-- A number that is not zero has no zero in front. -/
theorem head?_toDigits_ne {n : ℕ} (hn : 0 < n) : (Nat.toDigits 10 n).head? ≠ some '0' := by
  induction n using Nat.strongRecOn with
  | ind n ih =>
    rcases Nat.lt_or_ge n 10 with hlt | hge
    · have hall : ∀ n < 10, 0 < n → (Nat.toDigits 10 n).head? ≠ some '0' := by decide
      exact hall n hlt hn
    · have hless : n / 10 < n := Nat.div_lt_self (by omega) (by decide)
      rw [Nat.toDigits_of_base_le (by decide) hge,
        List.head?_append_of_ne_nil _ Nat.toDigits_ne_nil]
      exact ih (n / 10) hless (by omega)

/-- A number between two powers of ten has as many digits, and the first is not zero. -/
theorem exists_toDigits_eq_cons {n k : ℕ} (hlower : 10 ^ k ≤ n) (hupper : n < 10 ^ (k + 1)) :
    ∃ c rest, Nat.toDigits 10 n = c :: rest ∧ c ≠ '0' ∧ rest.length = k := by
  have hle : digitCount n ≤ k + 1 :=
    (Nat.length_toDigits_le_iff (by decide) (Nat.succ_pos k)).2 hupper
  have hlt : k < digitCount n :=
    (Nat.pow_lt_pow_iff_right (by decide)).1 (lt_of_le_of_lt hlower (lt_pow_digitCount n))
  obtain ⟨c, rest, hdigits⟩ := List.exists_cons_of_ne_nil (Nat.toDigits_ne_nil (n := n) (b := 10))
  have hhead := head?_toDigits_ne (lt_of_lt_of_le (Nat.pow_pos (by decide)) hlower)
  rw [digitCount, hdigits, List.length_cons] at hle hlt
  rw [hdigits] at hhead
  exact ⟨c, rest, hdigits, by simpa using hhead, by omega⟩

end Digits

/-! ## Zeros at the end -/

section Trimming

variable {ds whole fraction : List Char}

/-- Digits without the zeros at their end. -/
def trimmed (ds : List Char) : List Char := ds.rdropWhile (· == '0')

theorem getLast?_trimmed (ds : List Char) : (trimmed ds).getLast? ≠ some '0' := by
  intro h
  have hne : trimmed ds ≠ [] := by
    rintro hnil
    simp [hnil] at h
  have hlast := List.rdropWhile_last_not (· == '0') ds hne
  rw [List.getLast?_eq_getLast_of_ne_nil hne, Option.some_inj] at h
  exact hlast (beq_iff_eq.2 h)

theorem exists_trimmed_append (ds : List Char) :
    ∃ k, ds = trimmed ds ++ List.replicate k '0' := by
  refine ⟨_, (List.rdropWhile_append_rtakeWhile (p := (· == '0')) (l := ds)).symm.trans
    (congrArg _ (List.eq_replicate_of_mem fun c hc => ?_))⟩
  simpa using List.mem_rtakeWhile_imp hc

theorem IsDigits.trimmed (h : IsDigits ds) : IsDigits (trimmed ds) := fun c hc =>
  h c ((List.rdropWhile_prefix _ ds).subset hc)

/-- Zeros at the end of a fraction do not count. -/
theorem ofDigitChars_trimmed (whole fraction : List Char) (x : ℤ) :
    (Nat.ofDigitChars 10 (whole ++ trimmed fraction) 0 : ℚ) *
        10 ^ (x - (trimmed fraction).length) =
      Nat.ofDigitChars 10 (whole ++ fraction) 0 * 10 ^ (x - fraction.length) := by
  obtain ⟨k, hk⟩ := exists_trimmed_append fraction
  generalize trimmed fraction = kept at hk
  subst hk
  have hpow : (10 : ℚ) ^ (x - (kept.length : ℤ)) =
      10 ^ k * (10 : ℚ) ^ (x - ((kept ++ List.replicate k '0').length : ℤ)) := by
    rw [← zpow_natCast, ← zpow_add₀ (by norm_num)]
    congr 1
    rw [List.length_append, List.length_replicate]
    push_cast
    ring
  rw [← List.append_assoc, Nat.ofDigitChars_append (l := whole ++ kept),
    Nat.ofDigitChars_replicate_zero, hpow]
  push_cast
  ring

end Trimming

/-! ## Layout -/

section Layout

variable {negative : Bool} {whole fraction : List Char} {mark : Option (List Char)}

/-- Digits with a point before the fraction, if there is a fraction. -/
def layout (whole fraction : List Char) : List Char :=
  if fraction = [] then whole else whole ++ '.' :: fraction

def sign (negative : Bool) : List Char := if negative then ['-'] else []

/-- A text with all its parts. -/
def written (negative : Bool) (whole fraction : List Char) (mark : Option (List Char)) :
    List Char :=
  sign negative ++ (layout whole fraction ++ mark.elim [] ('e' :: ·))

theorem written_none (negative : Bool) (whole fraction : List Char) :
    written negative whole fraction none = sign negative ++ layout whole fraction := by
  rw [written, Option.elim_none, List.append_nil]

theorem cut_append {sep : Char} {front : List Char} (h : sep ∉ front) (back : List Char) :
    Numeral.cut sep (front ++ sep :: back) = (front, some back) := by
  rw [Numeral.cut, Anchor.splitOnce?_append h]

theorem cut_of_notMem {sep : Char} {front : List Char} (h : sep ∉ front) :
    Numeral.cut sep front = (front, none) := by
  have hnone : Anchor.splitOnce? sep front = none := by
    rw [Anchor.splitOnce?, takeWhile_of_notMem h]
    simp
  rw [Numeral.cut, hnone]

theorem cut_point (hwhole : IsDigits whole) :
    Numeral.cut '.' (layout whole fraction) =
      (whole, if fraction = [] then none else some fraction) := by
  rw [layout]
  split
  · exact cut_of_notMem (hwhole.notMem (by decide))
  · exact cut_append (hwhole.notMem (by decide)) fraction

theorem notMem_layout (hwhole : IsDigits whole) (hfraction : IsDigits fraction) {c : Char}
    (hc : c.isDigit = false) (hpoint : c ≠ '.') : c ∉ layout whole fraction := by
  rw [layout]
  split
  · exact hwhole.notMem hc
  · simp [hwhole.notMem hc, hfraction.notMem hc, hpoint]

/-- A text is cut where its parts were put together. -/
theorem ofText_written (hwhole : IsDigits whole) (hne : whole ≠ []) (hfraction : IsDigits fraction)
    (negative : Bool) (mark : Option (List Char)) :
    Numeral.ofText (written negative whole fraction mark) =
      ⟨negative, whole, if fraction = [] then none else some fraction, mark⟩ := by
  have hmark : Numeral.cut 'e' (layout whole fraction ++ mark.elim [] ('e' :: ·)) =
      (layout whole fraction, mark) := by
    have hnotMem := notMem_layout hwhole hfraction (c := 'e') (by decide) (by decide)
    cases mark with
    | none => simpa using cut_of_notMem hnotMem
    | some mark => exact cut_append hnotMem mark
  have hparts : Numeral.unsigned negative (layout whole fraction ++ mark.elim [] ('e' :: ·)) =
      ⟨negative, whole, if fraction = [] then none else some fraction, mark⟩ := by
    simp only [Numeral.unsigned, hmark, cut_point hwhole]
  cases negative with
  | true => exact hparts
  | false =>
    obtain ⟨c, rest, rfl⟩ := List.exists_cons_of_ne_nil hne
    have hc : '-' ≠ c := fun h =>
      hwhole.notMem (by decide) (h ▸ List.mem_cons_self : '-' ∈ c :: rest)
    rw [written, sign, if_neg Bool.false_ne_true, List.nil_append, ← hparts, Numeral.ofText]
    intro text htext
    rw [layout] at htext
    split at htext <;> exact hc (List.cons.inj htext).1.symm

/-- The number that a text denotes: all its digits, with the fraction below the point. -/
theorem denotes?_written (hwhole : IsDigits whole) (hne : whole ≠ [])
    (hfraction : IsDigits fraction) (negative : Bool) (mark : Option (List Char)) {x : ℤ}
    (hmark : mark.elim (some 0) Numeral.signed? = some x) :
    denotes? (written negative whole fraction mark) =
      some (negative, Nat.ofDigitChars 10 (whole ++ fraction) 0 *
        (10 : ℚ) ^ (x - fraction.length)) := by
  have hten : (10 : ℚ) ≠ 0 := by norm_num
  rw [denotes?, ofText_written hwhole hne hfraction, Numeral.magnitude?,
    magnitude?_of_isDigits hwhole hne, hmark, ofDigitChars_append_eq]
  by_cases hnil : fraction = []
  · simp [hnil]
  · simp only [hnil, if_false, Option.elim_some, magnitude?_of_isDigits hfraction hnil,
      Option.map_some, Option.bind_eq_bind, Option.bind_some, Option.pure_def, Option.some_inj,
      Prod.mk.injEq, true_and]
    rw [zpow_sub₀ hten, zpow_natCast]
    push_cast
    field_simp

theorem denotes?_of_isDigits (hwhole : IsDigits whole) (hne : whole ≠ []) :
    denotes? whole = some (false, (Nat.ofDigitChars 10 whole 0 : ℚ)) := by
  have hdenotes := denotes?_written hwhole hne (List.forall_mem_nil _) false none (x := 0) rfl
  simpa [written_none, sign, layout] using hdenotes

end Layout

end MachInspect.Decimal
