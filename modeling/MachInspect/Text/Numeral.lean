-- SUMMARY: Reading numerals: an optional sign, then one or more digits, within bounds.

/-!
# Reading numerals

A numeral is an optional sign and at least one digit; blanks, separators and base marks are
refused, leading zeros are not. A minus sign is only read by the signed form.
-/
namespace MachInspect.Text

/-- The value of a digit in bases up to sixteen, either case. -/
def digitValue? (base : Nat) (c : Char) : Option Nat :=
  let v? :=
    if '0' ≤ c ∧ c ≤ '9' then some (c.toNat - '0'.toNat)
    else if 'a' ≤ c ∧ c ≤ 'f' then some (c.toNat - 'a'.toNat + 10)
    else if 'A' ≤ c ∧ c ≤ 'F' then some (c.toNat - 'A'.toNat + 10)
    else none
  v?.bind fun v => if v < base then some v else none

/-- The value of a string of digits, read after `acc`; `none` on anything that is not a digit. -/
def digitsValue? (base : Nat) (acc : Nat) : List Char → Option Nat
  | [] => some acc
  | c :: rest => (digitValue? base c).bind fun v => digitsValue? base (acc * base + v) rest

/-- One or more digits. -/
def magnitude? (base : Nat) : List Char → Option Nat
  | [] => none
  | cs => digitsValue? base 0 cs

/-- An unsigned numeral below `bound`, with an optional plus sign. -/
def unsigned? (base bound : Nat) (cs : List Char) : Option Nat :=
  let digits := match cs with
    | '+' :: rest => rest
    | _ => cs
  (magnitude? base digits).bind fun n => if n < bound then some n else none

/-- An unsigned decimal numeral of 64 bits. -/
def word? (cs : List Char) : Option UInt64 := (unsigned? 10 (2 ^ 64) cs).map UInt64.ofNat

/-- A signed decimal numeral of 64 bits. -/
def signedWord? : List Char → Option Int64
  | '-' :: rest =>
    (magnitude? 10 rest).bind fun n => if n ≤ 2 ^ 63 then some (Int64.ofInt (-n)) else none
  | cs => (unsigned? 10 (2 ^ 63) cs).map Int64.ofNat

end MachInspect.Text
