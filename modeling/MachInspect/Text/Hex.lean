-- SUMMARY: Written numbers: decimal, hexadecimal, signed offsets, and dumps of bytes.

/-!
# Written numbers and byte dumps

Hexadecimal is lower case with a `0x` in front. A width counts digits without the `0x` and is a
minimum: wider numbers are never cut.
-/

-- Powers of numbers are those of the core library, also beside libraries with others.
attribute [instance (high), default_instance high] instPowNat

namespace MachInspect

/-- File contents and every part of them. -/
abbrev Bytes := List UInt8

namespace Text

def decimal (n : Nat) : String := String.ofList (Nat.toDigits 10 n)

def signedDecimal (n : Int) : String :=
  if n < 0 then "-" ++ decimal n.natAbs else decimal n.natAbs

/-- The digits of `n` in base `base`, with zeros in front up to `width` digits. -/
def paddedDigits (base width n : Nat) : List Char :=
  let digits := Nat.toDigits base n
  List.replicate (width - digits.length) '0' ++ digits

def hex (n : Nat) : String := "0x" ++ String.ofList (Nat.toDigits 16 n)

def hexWide (width n : Nat) : String := "0x" ++ String.ofList (paddedDigits 16 width n)

def octal (n : Nat) : String := "0o" ++ String.ofList (Nat.toDigits 8 n)

/-- `0x` and upper-case digits. -/
def upperHexWide (width n : Nat) : String :=
  "0x" ++ String.ofList ((paddedDigits 16 width n).map Char.toUpper)

/-- An address in the sixteen digits that listings use. -/
def addressText (address : UInt64) : String := hexWide 16 address.toNat

/-- `0x1f`, `-0x1f`. -/
def signedHex (value : Int) : String :=
  if value < 0 then "-" ++ hex value.natAbs else hex value.natAbs

/-- An offset as it follows a name: `+0x10`, `-0x4`, nothing for zero. -/
def offsetText (value : Int) : String :=
  if value = 0 then "" else if value < 0 then "-" ++ hex value.natAbs else "+" ++ hex value.natAbs

def byteDigits (b : UInt8) : String := String.ofList (paddedDigits 16 2 b.toNat)

/-- `de ad be ef`. -/
def spacedHex (data : Bytes) : String := " ".intercalate (data.map byteDigits)

/-- Printable ASCII as it is, every other byte as a dot. -/
def ascii (data : Bytes) : String :=
  String.ofList (data.map fun b => if 32 ≤ b ∧ b < 127 then Char.ofNat b.toNat else '.')

/-- Pads on the right with spaces up to `width` characters. -/
def padRight (width : Nat) (s : String) : String :=
  s ++ String.ofList (List.replicate (width - s.length) ' ')

/-- Pads on the left with spaces up to `width` characters. -/
def padLeft (width : Nat) (s : String) : String :=
  String.ofList (List.replicate (width - s.length) ' ') ++ s

end Text

end MachInspect
