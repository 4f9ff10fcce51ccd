-- SUMMARY: Declared types of variables, reduced to what printing a value needs.
import MachInspect.Text.Hex

/-!
# Value types

A type keeps its C spelling and its size; incomplete types have no size.
-/
namespace MachInspect.Value

/-- Types that are read as one number. -/
inductive Scalar where
  | pointer
  | bool
  | char
  | uchar
  | int
  | uint
  | float
  | complex
  deriving DecidableEq, Repr

/-- Types that stand for another one. -/
inductive Wrapper where
  | alias
  /-- `const`, `volatile`, `restrict` or `_Atomic`. -/
  | qualified
  deriving DecidableEq, Repr

/-- A member of a structure, with its type. -/
structure Member (α : Type) where
  name : String
  offset : UInt64
  /-- Set for bit-fields. -/
  bitSize : Option UInt64
  type : α
  deriving Repr

/-- A declared type. -/
inductive ValueType where
  | scalar (name : String) (size : Option UInt64) (kind : Scalar)
  | enumeration (name : String) (size : Option UInt64) (values : List (String × Int64))
  | wrapper (name : String) (size : Option UInt64) (kind : Wrapper) (inner : ValueType)
  | array (name : String) (size : Option UInt64) (element : ValueType) (count : UInt64)
  /-- Structures, classes and unions. -/
  | record (name : String) (size : Option UInt64) (members : List (Member ValueType))
  deriving Repr

namespace ValueType

/-- C spelling: `struct point`, `*char`, `[4]int`. -/
def name : ValueType → String
  | scalar name .. => name
  | enumeration name .. => name
  | wrapper name .. => name
  | array name .. => name
  | record name .. => name

/-- Size in bytes; none for incomplete types. -/
def size : ValueType → Option UInt64
  | scalar _ size _ => size
  | enumeration _ size _ => size
  | wrapper _ size _ _ => size
  | array _ size _ _ => size
  | record _ size _ => size

end ValueType

end MachInspect.Value
