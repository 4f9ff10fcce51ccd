-- SUMMARY: Floating-point values as listings show them: shortest digits, and C's percent-g.
import MachInspect.Binary.ByteOrder
import MachInspect.Decimal.Shortest

/-!
# Floating-point values in listings

Two forms are in use. Scalars show the shortest digits that read back; `long double` shows six
significant digits the way C's `%g` does. Both write exponents from -4 to 5 positionally.
-/
namespace MachInspect.Value.Floating

open Decimal

def signText (negative : Bool) : String := if negative then "-" else ""

/-- The shortest digits of a number of format `f`. A number that `f` cannot hold shows as `inf`. -/
def shortestIn (f : Format) : Number → String
  | .nan => "NaN"
  | .infinite negative => signText negative ++ "inf"
  | .finite negative mantissa exponent =>
    let s := Shortest.digits f mantissa exponent
    signText negative ++
      String.ofList (if isPositional s.exponent then s.positional else s.exponential)

/-- The shortest text of a `double`, or of the `float` nearest to it if `single`. -/
def shortest (single : Bool) : Number → String
  | .nan => "NaN"
  | .infinite negative => if negative then "-Inf" else "+Inf"
  | n =>
    let f := if single then binary32 else binary64
    shortestIn f (f.convert n)

/-- Six significant digits, trailing zeros removed. -/
def general : Number → String
  | .nan => "nan"
  | .infinite negative => signText negative ++ "inf"
  | .finite negative mantissa exponent =>
    signText negative ++
      if mantissa = 0 then "0"
      else
        let r := Ratio.ofBinary mantissa exponent
        let s := significant 6 r
        if isPositional s.exponent then
          String.ofList (stripZeros (fixed (5 - s.exponent).toNat r))
        else
          String.ofList (stripZeros (Scientific.pointed s.digits) ++ exponentMark s.exponent)

/-- A four-byte float; empty text for any other width. -/
def single (order : ByteOrder) (data : Bytes) : String :=
  if data.length = 4 then shortest true (binary32.decode (order.value data)) else ""

/-- An eight-byte float; empty text for any other width. -/
def double (order : ByteOrder) (data : Bytes) : String :=
  if data.length = 8 then shortest false (binary64.decode (order.value data)) else ""

end MachInspect.Value.Floating
