-- SUMMARY: The fewest decimal digits that read back as a given binary number.
import MachInspect.Decimal.Binary

/-!
# Shortest digits

The decimals that round to a binary number form an interval around it. For one digit, two digits
and so on, the two neighbours of the number on that decimal grid are tried, and the first grid with
a neighbour inside the interval wins. Of two such neighbours the nearer one is taken, and the upper
one if they are equally near.
-/
namespace MachInspect.Decimal.Shortest

/-- A positive binary number with its rounding interval, all scaled by `unit`: the number is
`center * unit`, the ends of the interval are `low * unit` and `high * unit`. -/
structure Interval where
  low : Nat
  center : Nat
  high : Nat
  /-- Binary exponent of the unit. -/
  exponent : Int
  /-- The ends round to the number too. -/
  closed : Bool
  deriving DecidableEq, Repr

/-- The rounding interval of a number of the format. Below a power of two the neighbours are twice
as near. -/
def Interval.of (f : Format) (mantissa : Nat) (exponent : Int) : Interval where
  low := if mantissa = 2 ^ (f.precision - 1) then 4 * mantissa - 1 else 4 * mantissa - 2
  center := 4 * mantissa
  high := 4 * mantissa + 2
  exponent := exponent - 2
  closed := mantissa % 2 == 0

/-- `a < b`, or `a ≤ b` when the interval has its ends. -/
def Interval.before (i : Interval) (a b : Nat) : Bool := if i.closed then a ≤ b else a < b

/-- The coefficient of the chosen neighbour on the grid with the given spacing: `unit` is the
interval's unit measured in that spacing. -/
def neighbour? (i : Interval) (unit : Ratio) : Option Nat :=
  let below := i.center * unit.num / unit.den
  let rest := i.center * unit.num % unit.den
  let down := i.before (i.low * unit.num) (below * unit.den)
  let up := i.before ((below + 1) * unit.den) (i.high * unit.num)
  if up && (!down || unit.den ≤ 2 * rest) then some (below + 1)
  else if down then some below
  else none

/-- Tries `count`, `count + 1`, … digits, `fuel` times in all, and then settles for the digits
below the number. -/
def search (i : Interval) (x : Int) : (count fuel : Nat) → Scientific
  | count, 0 =>
    let unit := (Ratio.ofBinary 1 i.exponent).scale 10 ((count : Int) - 1 - x)
    .ofCoefficient count (i.center * unit.num / unit.den) x
  | count, fuel + 1 =>
    let unit := (Ratio.ofBinary 1 i.exponent).scale 10 ((count : Int) - 1 - x)
    match neighbour? i unit with
    | some coefficient => .ofCoefficient count coefficient x
    | none => search i x (count + 1) fuel

/-- Drops the zeros that a carry leaves behind the first digit. -/
def trim : List Char → List Char
  | [] => []
  | d :: rest => d :: (rest.reverse.dropWhile (· == '0')).reverse

/-- Digits that always suffice for the formats in use. -/
def maxDigits : Nat := 17

/-- The shortest decimal that reads back as `mantissa * 2 ^ exponent`. -/
def digits (f : Format) (mantissa : Nat) (exponent : Int) : Scientific :=
  if mantissa = 0 then ⟨['0'], 0⟩
  else
    let x := exponentOf (Ratio.ofBinary mantissa exponent)
    let s := search (.of f mantissa exponent) x 1 maxDigits
    ⟨trim s.digits, s.exponent⟩

end MachInspect.Decimal.Shortest
