-- SUMMARY: Attributes of debug entries: the forms they are stored in and the values they have.
import MachInspect.Debug.Scan

/-!
# Attributes

An abbreviation says what attributes an entry has and in what form each is stored. How wide
addresses and offsets are depends on the unit.
-/
namespace MachInspect.Debug

/-- An attribute and the form it is stored in. -/
structure AttributeSpec where
  name : Nat
  form : Nat
  /-- The value itself, for the form that stores it in the abbreviation. -/
  constant : Int64
  deriving DecidableEq, Repr

/-- A stored attribute value, as far as types depend on it. -/
inductive AttributeValue where
  /-- A number of fixed width, signed or not as it is needed. -/
  | data (width : Nat) (value : Nat)
  | udata (value : Nat)
  | sdata (value : Int64)
  | block (bytes : Bytes)
  | string (bytes : Bytes)
  /-- Offset of a string in the string section. -/
  | stringAt (offset : Nat)
  /-- Offset of a string in the line string section. -/
  | lineStringAt (offset : Nat)
  /-- Number of a string in the table of string offsets. -/
  | stringNumber (index : Nat)
  /-- Offset from the start of the unit. -/
  | unitReference (offset : Nat)
  /-- Offset from the start of the debug information. -/
  | sectionReference (offset : Nat)
  | sectionOffset (offset : Nat)
  | address (value : Nat)
  /-- Number of an address in the table of addresses. -/
  | addressNumber (index : Nat)
  | other
  deriving DecidableEq, Repr

namespace AttributeValue

def unsigned? : AttributeValue → Option UInt64
  | data _ value => some (UInt64.ofNat value)
  | udata value => some (UInt64.ofNat value)
  | sdata value => if value < 0 then none else some value.toUInt64
  | _ => none

def signed? : AttributeValue → Option Int64
  | data width value => some (signExtend (UInt64.ofNat value) (8 * width))
  | udata value => if value < 2 ^ 63 then some (Int64.ofNat value) else none
  | sdata value => some value
  | _ => none

end AttributeValue

/-- How the numbers of a unit are stored. -/
structure Encoding where
  order : ByteOrder
  version : Nat
  addressSize : Nat
  /-- Size of offsets: 4 or 8. -/
  offsetSize : Nat
  deriving DecidableEq, Repr

/-- Attributes whose fixed-width numbers are section offsets in old versions. -/
def isOffsetAttribute (name version : Nat) : Bool :=
  [0x02, 0x10, 0x19, 0x2a, 0x2c, 0x40, 0x43, 0x46, 0x48, 0x4a, 0x4d, 0x55, 0x79].contains name
    || (name == 0x38 && (version == 2 || version == 3))

namespace Encoding

def number (e : Encoding) (width : Nat) : Scan Nat := Scan.number e.order width

/-- A block with its length in front. -/
def block (length : Scan Nat) : Scan AttributeValue := do return .block (← Scan.bytes (← length))

/-- A number that is a section offset for some attributes. -/
def dataOrOffset (e : Encoding) (spec : AttributeSpec) (width : Nat) :
    Scan AttributeValue := do
  let value ← e.number width
  return if e.offsetSize = width ∧ isOffsetAttribute spec.name e.version then .sectionOffset value
    else .data width value

/-- A value in a form other than the indirect one. -/
def scanForm (e : Encoding) (spec : AttributeSpec) (direct : Bool) (form : Nat) :
    Scan AttributeValue := do
  let skip (n : Nat) : Scan AttributeValue := do discard (Scan.bytes n); return .other
  match form with
  | 0x01 => return .address (← e.number e.addressSize)
  | 0x03 => block (e.number 2)
  | 0x04 => block (e.number 4)
  | 0x05 => return .data 2 (← e.number 2)
  | 0x06 => e.dataOrOffset spec 4
  | 0x07 => e.dataOrOffset spec 8
  | 0x08 => return .string (← Scan.terminated)
  | 0x09 => block Scan.uleb
  | 0x0a => block (e.number 1)
  | 0x0b => return .data 1 (← e.number 1)
  | 0x0c => skip 1
  | 0x0d => return .sdata (← Scan.sleb)
  | 0x0e => return .stringAt (← e.number e.offsetSize)
  | 0x0f => return .udata (← Scan.uleb)
  | 0x10 => do
    let width := if e.version = 2 then e.addressSize else e.offsetSize
    return .sectionReference (← e.number width)
  | 0x11 => return .unitReference (← e.number 1)
  | 0x12 => return .unitReference (← e.number 2)
  | 0x13 => return .unitReference (← e.number 4)
  | 0x14 => return .unitReference (← e.number 8)
  | 0x15 => return .unitReference (← Scan.uleb)
  | 0x17 => return .sectionOffset (← e.number e.offsetSize)
  | 0x18 => block Scan.uleb
  | 0x19 => return .other
  | 0x1a | 0x1f02 => return .stringNumber (← Scan.uleb)
  | 0x1b | 0x1f01 => return .addressNumber (← Scan.uleb)
  | 0x1c => skip 4
  | 0x1d | 0x1f20 | 0x1f21 => skip e.offsetSize
  | 0x1e => return .block (← Scan.bytes 16)
  | 0x1f => return .lineStringAt (← e.number e.offsetSize)
  | 0x20 => skip 8
  | 0x21 => if direct then return .sdata spec.constant else throw .badImplicitConst
  | 0x22 => do discard Scan.uleb; return .other
  | 0x23 => do discard Scan.uleb; return .other
  | 0x24 => skip 8
  | 0x25 => return .stringNumber (← e.number 1)
  | 0x26 => return .stringNumber (← e.number 2)
  | 0x27 => return .stringNumber (← e.number 3)
  | 0x28 => return .stringNumber (← e.number 4)
  | 0x29 => return .addressNumber (← e.number 1)
  | 0x2a => return .addressNumber (← e.number 2)
  | 0x2b => return .addressNumber (← e.number 3)
  | 0x2c => return .addressNumber (← e.number 4)
  | _ => throw .unknownForm

/-- The form that a row of indirect forms leads to. -/
def scanIndirect : (fuel : Nat) → Scan Nat
  | 0 => throw .unexpectedEnd
  | fuel + 1 => do
    let form ← Scan.uleb16
    if form = 0x16 then scanIndirect fuel else return form

/-- The value of an attribute. -/
def scanValue (e : Encoding) (spec : AttributeSpec) : Scan AttributeValue := do
  if spec.form = 0x16 then
    let form ← scanIndirect (← get).length
    e.scanForm spec false form
  else e.scanForm spec true spec.form

end Encoding

end MachInspect.Debug
