-- SUMMARY: The three layouts of long double, shown with six significant digits.
import MachInspect.Binary.Slices
import MachInspect.Value.Floating

/-!
# `long double`

The layout depends on the CPU. An x87 value within the range of `double` goes through `double`;
outside that range its decimal exponent and digits come from its decimal logarithm.
-/
namespace MachInspect.Value

inductive LongDoubleLayout where
  /-- 80-bit extended precision in a slot of 16 bytes. -/
  | x87
  /-- The same as `double`. -/
  | binary64
  /-- The sum of two doubles. -/
  | doubleDouble
  deriving DecidableEq, Repr

namespace LongDouble

open Decimal

/-- `mantissa / 2 ^ 63`, the mantissa rounded to a `double`. -/
def fraction (mantissa : Nat) : Number :=
  match Decimal.binary64.round false mantissa 0 with
  | .finite negative m e => .finite negative m (e - 63)
  | n => n

/-- `n * 2 ^ k`, rounded. -/
def shifted (n : Number) (k : Int) (negative : Bool) : Number :=
  match n with
  | .finite _ m e => Decimal.binary64.round negative m (e + k)
  | n => n

/-- The `double` with the given value, for logarithms. -/
def toFloat : Number → Float
  | .finite _ m e =>
    match Decimal.binary64.round false m e with
    | .finite _ m e => Float.ofBits (UInt64.ofNat (Decimal.binary64.encodePositive m e))
    | _ => 0
  | _ => 0

/-- The decimal logarithm of two. -/
def log10Two : Float := Float.ofBits 0x3fd34413509f79ff

/-- The text of `n * 2 ^ k` by way of its decimal logarithm: five digits after the point, trailing
zeros removed. -/
def byLogarithm (n : Number) (k : Int) : String :=
  let log := (toFloat n).log10 + Float.ofInt k * log10Two
  let floor := log.floor
  let exponent := floor.toInt64.toInt
  let digits := match Decimal.binary64.decode ((10 : Float).pow (log - floor)).toBits.toNat with
    | .finite _ m e => fixed 5 (Ratio.ofBinary m e)
    | _ => []
  let (digits, exponent) := match digits with
    | '1' :: '0' :: _ => (['1'], exponent + 1)
    | _ => (stripZeros digits, exponent)
  String.ofList (digits ++ exponentMark exponent)

/-- An x87 value: `mantissa * 2 ^ (exponent - 16383 - 63)`, the least exponent counting as one. -/
def x87 (mantissa signExponent : Nat) : String :=
  let negative := signExponent / 0x8000 % 2 == 1
  let exponent := signExponent % 0x8000
  let sign := Floating.signText negative
  if exponent = 0x7fff then
    if mantissa * 2 % 2 ^ 64 = 0 then sign ++ "inf" else "nan"
  else if mantissa = 0 then sign ++ "0"
  else
    let unbiased : Int := if exponent = 0 then 1 - 16383 else (exponent : Int) - 16383
    if -1022 ≤ unbiased ∧ unbiased ≤ 1023 then
      Floating.general (shifted (fraction mantissa) unbiased negative)
    else sign ++ byLogarithm (fraction mantissa) unbiased

/-- A `long double` slot of 16 bytes, its parts taken by `slices`; empty text for any other width. -/
def textBy {m : Type → Type} [Monad m] (slices : Slices m) (layout : LongDoubleLayout)
    (order : ByteOrder) (data : Bytes) : m String :=
  if data.length = 16 then
    match layout with
    | .x87 => do
      let mantissa ← slices.part data 0 8
      let signExponent ← slices.part data 8 2
      return x87 (order.value mantissa) (order.value signExponent)
    | .binary64 => do
      return Floating.general (Decimal.binary64.decode (order.value (← slices.part data 0 8)))
    | .doubleDouble => do
      let high ← slices.part data 0 8
      let low ← slices.part data 8 8
      return Floating.general (Decimal.binary64.add (Decimal.binary64.decode (order.value high))
        (Decimal.binary64.decode (order.value low)))
  else return ""

/-- A `long double` slot of 16 bytes; empty text for any other width. -/
def text (layout : LongDoubleLayout) (order : ByteOrder) (data : Bytes) : String :=
  Id.run (textBy .within layout order data)

end LongDouble

end MachInspect.Value
