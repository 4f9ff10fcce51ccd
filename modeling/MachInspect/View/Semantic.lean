-- SUMMARY: The ways in which a range of bytes can be shown.
import MachInspect.Error
import MachInspect.Image.Basic

/-!
# Semantic types

A semantic type says what each row of a view holds: an instruction, a string, a number, eight bytes
of data. Unless one is asked for, it is guessed from the section.
-/
namespace MachInspect.View

inductive Semantic where
  | code
  | cString
  | float32
  | float64
  /-- C's `long double`. -/
  | float128
  | int32
  | int64
  | pointer32
  | pointer64
  | data
  | ehFrame
  /-- The declared type of a variable. -/
  | declared
  deriving DecidableEq, Repr

namespace Semantic

def all : List Semantic :=
  [code, cString, float32, float64, float128, int32, int64, pointer32, pointer64, data, ehFrame,
   declared]

def name : Semantic → String
  | code => "code"
  | cString => "cstring"
  | float32 => "float32"
  | float64 => "float64"
  | float128 => "float128"
  | int32 => "int32"
  | int64 => "int64"
  | pointer32 => "pointer32"
  | pointer64 => "pointer64"
  | data => "data"
  | ehFrame => "eh_frame"
  | declared => "dwarf"

/-- The semantic type of a name, in any mixture of cases. -/
def parse (text : String) : Except Error Semantic :=
  match all.find? fun s => s.name.toList == text.toList.map Char.toLower with
  | some s => .ok s
  | none => .error (.misuse (.semantic text))

/-- Attributes of sections that hold instructions. -/
def instructionFlags : UInt32 := 0x80000000 ||| 0x400

/-- The guess from a section's type and attributes. -/
def ofFlags (image : Image) (s : Section) : Semantic :=
  match s.type.toNat with
  | 0x2 => cString
  | 0x3 => float32
  | 0x4 => float64
  | 0xe => float128
  | 0x5 | 0x6 | 0x7 | 0x9 | 0xa => if image.arch.is64Bit then pointer64 else pointer32
  | 0x8 => code
  | _ => if s.flags &&& instructionFlags ≠ 0 then code else data

/-- The guess for a section. -/
def ofSection (image : Image) (s : Section) : Semantic :=
  if s.name = "__eh_frame" then ehFrame
  else if s.isZeroFill then data
  else ofFlags image s

/-- The guess for a symbol, if it is defined in a section. -/
def ofSymbol? (image : Image) (index : Nat) : Option Semantic := do
  let s ← image.symbols[index]?
  if s.isSectionDefined then return ofSection image (← image.home? s) else none

end Semantic

end MachInspect.View
