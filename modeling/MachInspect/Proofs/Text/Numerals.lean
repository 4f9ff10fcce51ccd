-- SUMMARY: Reading a decimal numeral gives back the number that was written.
import MachInspect.Text.Hex
import MachInspect.Text.Numeral

/-!
# Written numbers are read back

`decimal` writes a number without a sign and without zeros in front; `word?` reads it again, and
`signedWord?` reads what `signedDecimal` writes. In every base up to sixteen, digits that are padded
to a width have the value that was written.
-/
namespace MachInspect.Text

/-! ## Digits -/

section Digits

variable {base : Nat}

theorem digitValue?_digitChar {d : Nat} (hbase : base ≤ 16) (hd : d < base) :
    digitValue? base (Nat.digitChar d) = some d := by
  have hall : ∀ base ≤ 16, ∀ d < base, digitValue? base (Nat.digitChar d) = some d := by
    decide +kernel
  exact hall base hbase d hd

theorem digitsValue?_append (base acc : Nat) (front back : List Char) :
    digitsValue? base acc (front ++ back) =
      (digitsValue? base acc front).bind fun v => digitsValue? base v back := by
  induction front generalizing acc with
  | nil => rfl
  | cons c rest ih =>
    cases hc : digitValue? base c with
    | none => simp [digitsValue?, hc]
    | some v => simp [digitsValue?, hc, ih]

/-- The digits of a number have its value; the last digit is read after all others. -/
theorem digitsValue?_toDigits (hlo : 1 < base) (hhi : base ≤ 16) (n : Nat) :
    digitsValue? base 0 (Nat.toDigits base n) = some n := by
  induction n using Nat.strongRecOn with
  | ind n ih =>
    rcases Nat.lt_or_ge n base with hlt | hge
    · rw [Nat.toDigits_of_lt_base hlt]
      simp [digitsValue?, digitValue?_digitChar hhi hlt]
    · have hmod : n % base < base := Nat.mod_lt _ (by omega)
      have hsum : n / base * base + n % base = n := Nat.div_add_mod' n base
      have hless : n / base < n := Nat.div_lt_self (by omega) hlo
      rw [Nat.toDigits_of_base_le hlo hge, digitsValue?_append, ih (n / base) hless]
      simp [digitsValue?, digitValue?_digitChar hhi hmod, hsum]

theorem exists_of_mem_toDigits (hbase : 1 < base) {n : Nat} {c : Char}
    (h : c ∈ Nat.toDigits base n) : ∃ d < base, c = Nat.digitChar d := by
  induction n using Nat.strongRecOn with
  | ind n ih =>
    rcases Nat.lt_or_ge n base with hlt | hge
    · rw [Nat.toDigits_of_lt_base hlt, List.mem_singleton] at h
      exact ⟨n, hlt, h⟩
    · rw [Nat.toDigits_of_base_le hbase hge, List.mem_append, List.mem_singleton] at h
      rcases h with hfront | hlast
      · exact ih (n / base) (Nat.div_lt_self (by omega) hbase) hfront
      · exact ⟨n % base, Nat.mod_lt _ (by omega), hlast⟩

end Digits

/-! ## Digits of a fixed number -/

section Padded

variable {base width n : Nat}

/-- A number that fits in the width takes exactly that many digits. -/
theorem length_paddedDigits (hbase : 1 < base) (hwidth : 0 < width) (hn : n < base ^ width) :
    (paddedDigits base width n).length = width := by
  have hle : (Nat.toDigits base n).length ≤ width :=
    (Nat.length_toDigits_le_iff hbase hwidth).mpr hn
  simp only [paddedDigits, List.length_append, List.length_replicate]
  omega

theorem digitsValue?_zeros (hlo : 0 < base) (hhi : base ≤ 16) (k : Nat) :
    digitsValue? base 0 (List.replicate k '0') = some 0 := by
  have hzero : digitValue? base '0' = some 0 := digitValue?_digitChar hhi hlo
  induction k with
  | zero => rfl
  | succ k ih => simp [List.replicate_succ, digitsValue?, hzero, ih]

/-- Zeros in front do not count. -/
theorem digitsValue?_paddedDigits (hlo : 1 < base) (hhi : base ≤ 16) (width n : Nat) :
    digitsValue? base 0 (paddedDigits base width n) = some n := by
  rw [paddedDigits, digitsValue?_append, digitsValue?_zeros (by omega) hhi, Option.bind_some,
    digitsValue?_toDigits hlo hhi]

theorem exists_of_mem_paddedDigits (hbase : 1 < base) {c : Char}
    (h : c ∈ paddedDigits base width n) : ∃ d < base, c = Nat.digitChar d := by
  rw [paddedDigits, List.mem_append, List.mem_replicate] at h
  rcases h with ⟨-, rfl⟩ | hdigit
  · exact ⟨0, by omega, rfl⟩
  · exact exists_of_mem_toDigits hbase hdigit

end Padded

/-! ## Decimal numerals -/

theorem magnitude?_toDigits (n : Nat) : magnitude? 10 (Nat.toDigits 10 n) = some n := by
  cases hdigits : Nat.toDigits 10 n with
  | nil => exact absurd hdigits Nat.toDigits_ne_nil
  | cons c rest =>
    rw [magnitude?, ← hdigits]
    · exact digitsValue?_toDigits (by decide) (by decide) n
    · simp

theorem notMem_toDigits {c : Char} (hc : c.isDigit = false) (n : Nat) : c ∉ Nat.toDigits 10 n := by
  intro hmem
  have hdigit := Nat.isDigit_of_mem_toDigits (by decide) (by decide) hmem
  exact absurd (hdigit.symm.trans hc) (by decide)

/-- A number starts with a digit, so with no sign. -/
theorem toDigits_ne_cons {c : Char} (hc : c.isDigit = false) (n : Nat) (rest : List Char) :
    Nat.toDigits 10 n ≠ c :: rest := by
  intro hdigits
  exact notMem_toDigits hc n (hdigits ▸ List.mem_cons_self)

theorem unsigned?_toDigits {n bound : Nat} (h : n < bound) :
    unsigned? 10 bound (Nat.toDigits 10 n) = some n := by
  unfold unsigned?
  split
  · rename_i rest hplus
    exact absurd hplus (toDigits_ne_cons (by decide) n rest)
  · simp [magnitude?_toDigits, h]

/-- A number of 64 bits is read back from its decimal numeral. -/
theorem word?_decimal (n : UInt64) : word? (decimal n.toNat).toList = some n := by
  have hread : unsigned? 10 (2 ^ 64) (Nat.toDigits 10 n.toNat) = some n.toNat :=
    unsigned?_toDigits n.toNat_lt
  simp [word?, decimal, hread]

theorem signedWord?_toDigits {n : Nat} (h : n < 2 ^ 63) :
    signedWord? (Nat.toDigits 10 n) = some (Int64.ofNat n) := by
  unfold signedWord?
  split
  · rename_i rest hminus
    exact absurd hminus (toDigits_ne_cons (by decide) n rest)
  · simp [unsigned?_toDigits h]

theorem signedWord?_minus {n : Nat} (h : n ≤ 2 ^ 63) :
    signedWord? ('-' :: Nat.toDigits 10 n) = some (Int64.ofInt (-n)) := by
  simp only [signedWord?, magnitude?_toDigits, Option.bind_some, h, if_true]

/-- A signed number of 64 bits is read back from its decimal numeral, the lowest one included. -/
theorem signedWord?_signedDecimal (n : Int64) :
    signedWord? (signedDecimal n.toInt).toList = some n := by
  have hlo := n.le_toInt
  have hhi := n.toInt_lt
  unfold signedDecimal
  split
  · rename_i hneg
    have hvalue : -(n.toInt.natAbs : Int) = n.toInt := by omega
    have htext : ("-" ++ decimal n.toInt.natAbs).toList =
        '-' :: Nat.toDigits 10 n.toInt.natAbs := by
      simp [decimal]
    rw [htext, signedWord?_minus (by omega), hvalue, Int64.ofInt_toInt]
  · rename_i hnonneg
    have hvalue : (n.toInt.natAbs : Int) = n.toInt := by omega
    rw [decimal, String.toList_ofList, signedWord?_toDigits (by omega), ← Int64.ofInt_eq_ofNat,
      hvalue, Int64.ofInt_toInt]

end MachInspect.Text
