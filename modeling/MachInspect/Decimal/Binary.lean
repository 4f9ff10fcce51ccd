-- SUMMARY: Binary floating-point formats: bit patterns, exact values and rounding.
import MachInspect.Decimal.Rounding

/-!
# Binary floating point

A bit pattern is decoded to an exact value `± mantissa * 2 ^ exponent`. Arithmetic is done on exact
values and rounded once, to nearest with ties to even.
-/
namespace MachInspect.Decimal

/-- A binary interchange format. -/
structure Format where
  /-- Bits of a normal mantissa, the leading one included. -/
  precision : Nat
  exponentBits : Nat
  /-- Exponent of the last mantissa bit of the smallest numbers. -/
  minExponent : Int
  deriving DecidableEq, Repr

def binary64 : Format := ⟨53, 11, -1074⟩

def binary32 : Format := ⟨24, 8, -149⟩

/-- The value of a floating-point datum. -/
inductive Number where
  | nan
  | infinite (negative : Bool)
  /-- `± mantissa * 2 ^ exponent`; a zero keeps its sign. -/
  | finite (negative : Bool) (mantissa : Nat) (exponent : Int)
  deriving DecidableEq, Repr

namespace Format

/-- Exponent of the last mantissa bit of the largest numbers. -/
def maxExponent (f : Format) : Int := f.minExponent + (2 ^ f.exponentBits : Nat) - 3

/-- The value of a bit pattern. -/
def decode (f : Format) (bits : Nat) : Number :=
  let hidden := 2 ^ (f.precision - 1)
  let fraction := bits % hidden
  let field := bits / hidden % 2 ^ f.exponentBits
  let negative := bits / hidden / 2 ^ f.exponentBits % 2 == 1
  if field + 1 = 2 ^ f.exponentBits then
    if fraction = 0 then .infinite negative else .nan
  else if field = 0 then .finite negative fraction f.minExponent
  else .finite negative (fraction + hidden) (f.minExponent + field - 1)

/-- The bit pattern of a positive mantissa of at most `precision` bits; shorter than that only at
the least exponent. -/
def encodePositive (f : Format) (mantissa : Nat) (exponent : Int) : Nat :=
  (exponent - f.minExponent).toNat * 2 ^ (f.precision - 1) + mantissa

/-- The nearest value of the format to `± mantissa * 2 ^ exponent`, ties to even. -/
def round (f : Format) (negative : Bool) (mantissa : Nat) (exponent : Int) : Number :=
  if mantissa = 0 then .finite negative 0 f.minExponent
  else
    let top : Int := Nat.log2 mantissa + exponent
    let last := max f.minExponent (top - (f.precision - 1 : Nat))
    let scaled := Ratio.ofBinary mantissa (exponent - last)
    let rounded := roundHalfEven scaled.num scaled.den
    let (mantissa, last) :=
      if rounded = 2 ^ f.precision then (2 ^ (f.precision - 1), last + 1) else (rounded, last)
    if f.maxExponent < last then .infinite negative else .finite negative mantissa last

/-- The nearest value of the format to `n`. -/
def convert (f : Format) : Number → Number
  | .finite negative mantissa exponent => f.round negative mantissa exponent
  | n => n

/-- Signed mantissa over the exponent `e`, which is at most the number's own exponent. -/
def aligned (negative : Bool) (mantissa : Nat) (exponent e : Int) : Int :=
  let m : Int := mantissa * 2 ^ (exponent - e).toNat
  if negative then -m else m

/-- The rounded sum. Opposite infinities have none; an exact zero is negative only if both
operands are. -/
def add (f : Format) : Number → Number → Number
  | .nan, _ => .nan
  | _, .nan => .nan
  | .infinite a, .infinite b => if a = b then .infinite a else .nan
  | .infinite a, _ => .infinite a
  | _, .infinite b => .infinite b
  | .finite a m p, .finite b n q =>
    let e := min p q
    let sum := aligned a m p e + aligned b n q e
    if sum = 0 then .finite (a && b) 0 f.minExponent
    else f.round (sum < 0) sum.natAbs e

end Format

end MachInspect.Decimal
