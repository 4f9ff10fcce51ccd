-- SUMMARY: Positive rationals on decimal grids: exponents, scaling and rounding half to even.

/-!
# Rounding on decimal grids

A positive rational is kept as a numerator and a denominator, so every comparison is exact.
-/

-- Powers of numbers are those of the core library, also beside libraries with others.
attribute [instance (high), default_instance high] instPowNat

namespace MachInspect.Decimal

/-- A non-negative rational `num / den`. -/
structure Ratio where
  num : Nat
  den : Nat
  deriving DecidableEq, Repr

namespace Ratio

/-- `r * base ^ k`, for exponents of either sign. -/
def scale (base : Nat) (k : Int) (r : Ratio) : Ratio :=
  if 0 ≤ k then ⟨r.num * base ^ k.toNat, r.den⟩ else ⟨r.num, r.den * base ^ (-k).toNat⟩

/-- `mantissa * 2 ^ exponent`. -/
def ofBinary (mantissa : Nat) (exponent : Int) : Ratio := scale 2 exponent ⟨mantissa, 1⟩

end Ratio

/-- The nearest integer to `num / den`; a half goes to the even neighbour. -/
def roundHalfEven (num den : Nat) : Nat :=
  let quotient := num / den
  let twice := 2 * (num % den)
  if twice < den then quotient
  else if den < twice then quotient + 1
  else quotient + quotient % 2

/-- How many decimal digits `n` has. -/
def digitCount (n : Nat) : Nat := (Nat.toDigits 10 n).length

/-- The `x` with `10 ^ x ≤ r < 10 ^ (x + 1)`, for a positive `r`. The digit counts leave only two
candidates, and one comparison decides between them. -/
def exponentOf (r : Ratio) : Int :=
  let x : Int := (digitCount r.num : Int) - digitCount r.den
  let scaled := r.scale 10 (-x)
  if scaled.den ≤ scaled.num then x else x - 1

/-- A decimal number `d.ddd * 10 ^ exponent`, given by its digits. -/
structure Scientific where
  digits : List Char
  exponent : Int
  deriving DecidableEq, Repr

/-- `coefficient * 10 ^ (exponent + 1 - count)` as a number of `count` digits. A coefficient that
has grown to `10 ^ count` moves to the next exponent. -/
def Scientific.ofCoefficient (count coefficient : Nat) (exponent : Int) : Scientific :=
  if coefficient = 10 ^ count then ⟨Nat.toDigits 10 (10 ^ (count - 1)), exponent + 1⟩
  else ⟨Nat.toDigits 10 coefficient, exponent⟩

/-- A positive `r` rounded to `count` significant digits. -/
def significant (count : Nat) (r : Ratio) : Scientific :=
  let x := exponentOf r
  let scaled := r.scale 10 ((count : Int) - 1 - x)
  .ofCoefficient count (roundHalfEven scaled.num scaled.den) x

/-- `r` rounded to `places` digits after the point, the point left out for zero places. -/
def fixed (places : Nat) (r : Ratio) : List Char :=
  let scaled := r.scale 10 places
  let digits := Nat.toDigits 10 (roundHalfEven scaled.num scaled.den)
  let padded := List.replicate (places + 1 - digits.length) '0' ++ digits
  let whole := padded.take (padded.length - places)
  if places = 0 then whole else whole ++ '.' :: padded.drop (padded.length - places)

/-- Removes trailing zeros after a point, and the point if nothing is left after it. -/
def stripZeros (text : List Char) : List Char :=
  if text.contains '.' then
    let kept := (text.reverse.dropWhile (· == '0'))
    (kept.dropWhile (· == '.')).reverse
  else text

/-- `e+07`: at least two digits. -/
def exponentMark (x : Int) : List Char :=
  let digits := Nat.toDigits 10 x.natAbs
  'e' :: (if x < 0 then '-' else '+') :: (List.replicate (2 - digits.length) '0' ++ digits)

/-- Exponents that are written out with a point instead of an exponent mark. -/
def isPositional (x : Int) : Bool := -4 ≤ x && x < 6

namespace Scientific

/-- `d.ddd`. -/
def pointed : List Char → List Char
  | [] => []
  | [d] => [d]
  | d :: rest => d :: '.' :: rest

/-- `d.ddde+XX`. -/
def exponential (s : Scientific) : List Char := pointed s.digits ++ exponentMark s.exponent

/-- The same number without an exponent. -/
def positional (s : Scientific) : List Char :=
  let point := s.exponent + 1
  if point ≤ 0 then '0' :: '.' :: (List.replicate point.natAbs '0' ++ s.digits)
  else
    let whole := point.toNat
    if s.digits.length ≤ whole then s.digits ++ List.replicate (whole - s.digits.length) '0'
    else s.digits.take whole ++ '.' :: s.digits.drop whole

end Scientific

end MachInspect.Decimal
