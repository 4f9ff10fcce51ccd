-- SUMMARY: Where relocations point, by the rules of each CPU.
import MachInspect.Symbols.Index

/-!
# Relocation targets

A relocation is read together with the bytes it patches. The result is a symbol with an addend, or
an address with an addend, or nothing when the entry only serves a neighbour.

* Program-counter-relative fields count from the byte after them; ARM branches count from eight
  bytes (four in Thumb code) past the instruction, ARM64 and PowerPC branches from the instruction.
* A section difference needs the entry after it, which has to be a scattered pair; the target is
  the field plus the pair's value.
* On x86-64 an immediate behind the displacement adds its size to the addend.
* On ARM64 an addend entry supplies the addend of the next entry at the same place.

Addresses go around the end of the address space. Addends do not: the program stops at a sum that
64 bits cannot hold, and the relocation then has no outcome. The rules themselves leave open what
becomes of such a sum (`Sums`).
-/
namespace MachInspect

open Text

/-- Where a relocation points. -/
inductive RelocTarget where
  | symbol (index : Nat) (addend : Int64) (size : UInt64)
  | address (address : UInt64) (addend : Int64) (size : UInt64)
  /-- The entry only modifies a neighbour. -/
  | none
  | unresolved (reason : String)
  deriving DecidableEq, Repr

namespace RelocTarget

/-- `_main+0x10`, `_main-0x4`, `0x1000`, or why there is no target. -/
def describe (index : SymbolIndex) : RelocTarget → String
  | symbol i addend _ =>
    let name := match index.image.symbols[i]? with
      | some s => s.name
      | Option.none => "?"
    name ++ offsetText addend.toInt
  | address base addend _ => index.addressName (displaced base addend) true
  | none => ""
  | unresolved reason => "? (" ++ reason ++ ")"

end RelocTarget

/-- Sums and differences of addends, which may fail. -/
structure Sums (m : Type → Type) where
  add : Int64 → Int64 → m Int64
  sub : Int64 → Int64 → m Int64

/-- The number takes more than 64 bits, one of them for the sign. -/
def OutOfRange (n : Int) : Prop := n < -2 ^ 63 ∨ 2 ^ 63 ≤ n

instance (n : Int) : Decidable (OutOfRange n) := inferInstanceAs (Decidable (_ ∨ _))

/-- Sums that have no result if they leave the range. -/
def Sums.checked : Sums Option where
  add a b := if OutOfRange (a.toInt + b.toInt) then none else some (a + b)
  sub a b := if OutOfRange (a.toInt - b.toInt) then none else some (a - b)

namespace Reloc

/-- The bytes that a relocation patches. -/
structure Operand where
  bytes : Bytes
  /-- The field, zero-extended. -/
  raw : UInt64
  /-- The field, sign-extended. -/
  value : Int64
  /-- Address of the field. -/
  address : UInt64
  width : UInt64
  deriving DecidableEq, Repr

def Operand.of (order : ByteOrder) (address : UInt64) (bytes : Bytes) : Operand where
  bytes
  raw := order.word bytes
  value := signExtend (order.word bytes) (8 * bytes.length)
  address
  width := UInt64.ofNat bytes.length

/-- The address after the field. -/
def Operand.next (op : Operand) : UInt64 := op.address + op.width

def unknownKind (r : Reloc) : RelocTarget := .unresolved ("type " ++ decimal r.kind.toNat)

def toSymbol (r : Reloc) (addend : Int64) (op : Operand) : RelocTarget :=
  .symbol r.value.toNat addend op.width

/-- A plain pointer or displacement, as the 32-bit CPUs share it. -/
def plain (r : Reloc) (op : Operand) : RelocTarget :=
  let field := if r.pcRelative then displaced op.next op.value else op.raw
  if r.scattered then
    .address r.value.toUInt64 (field - r.value.toUInt64).toInt64 op.width
  else if r.external then
    toSymbol r (if r.pcRelative then op.value + op.next.toInt64 else op.value) op
  else .address field 0 op.width

/-- A branch by `distance` from `origin`. -/
def branch (r : Reloc) (op : Operand) (origin : UInt64) (distance : Int64) : RelocTarget :=
  if r.external then toSymbol r (distance + origin.toInt64) op
  else .address (displaced origin distance) 0 op.width

/-- Bytes of the immediate that follows the displacement. -/
def trailingImmediate (r : Reloc) : Int64 :=
  match r.kind.toNat with
  | 6 => 1
  | 7 => 2
  | 8 => 4
  | _ => 0

/-- The distance in an ARM branch: 24 bits, in words. -/
def armDistance (op : Operand) : Int64 := signExtend (op.raw &&& 0xffffff) 24 * 4

/-- The distance in a Thumb branch, whose halves are in two half-words. -/
def thumbDistance (order : ByteOrder) (op : Operand) : Int64 :=
  let first := order.word (op.bytes.take 2)
  let second := order.word (op.bytes.drop 2)
  signExtend (((first &&& 0x7ff) <<< 12) ||| ((second &&& 0x7ff) <<< 1)) 23

/-- The addend that the previous entry supplies. -/
def suppliedAddend (r : Reloc) : Option Reloc → Int64
  | some previous =>
    if previous.kind = 10 ∧ previous.address = r.address then
      signExtend previous.value.toUInt64 24
    else 0
  | none => 0

/-- The distance in an ARM64 branch: 26 bits, in words. -/
def arm64Distance (op : Operand) : Int64 := signExtend (op.raw &&& 0x3ffffff) 26 * 4

/-- The distance in an ARM64 page address: 21 bits in two parts, in pages. -/
def pageDistance (op : Operand) : Int64 :=
  let low : UInt64 := (op.raw >>> 29) &&& 0x3
  let high : UInt64 := (op.raw >>> 5) &&& 0x7ffff
  signExtend (high <<< 2 ||| low) 21 * 4096

/-- Where a PowerPC branch counts from: the instruction, or zero in an absolute branch. -/
def powerPcOrigin (op : Operand) : UInt64 := if op.raw &&& 0x2 ≠ 0 then 0 else op.address

-- ---------------------------------------------------------------------------
-- The rules of each CPU
-- ---------------------------------------------------------------------------

section

variable {m : Type → Type} [Monad m] (sums : Sums m)

/-- A section difference, with the entry after it. -/
def sectionDifference (r : Reloc) (next : Option Reloc) (op : Operand) : m RelocTarget :=
  match next with
  | some pair =>
    if pair.scattered ∧ pair.kind = 1 then do
      let sum ← sums.add op.value pair.value.toUInt64.toInt64
      let addend ← sums.sub sum r.value.toUInt64.toInt64
      return .address r.value.toUInt64 addend op.width
    else return .unresolved "SECTDIFF without PAIR"
  | none => return .unresolved "SECTDIFF without PAIR"

/-- 32-bit x86. -/
def targetX86 (r : Reloc) (next : Option Reloc) (op : Operand) : m RelocTarget :=
  match r.kind.toNat with
  | 1 => return .none
  | 0 => return plain r op
  | 2 | 4 => if r.scattered then sectionDifference sums r next op else return unknownKind r
  | _ => return unknownKind r

def targetX86_64 (r : Reloc) (op : Operand) : m RelocTarget :=
  if r.kind = 5 then return .none
  else if r.external then
    return toSymbol r (← sums.add op.value r.trailingImmediate) op
  else if r.pcRelative then
    return .address (displaced op.next (← sums.add op.value r.trailingImmediate)) 0 op.width
  else return .address op.raw 0 op.width

def targetArm (order : ByteOrder) (r : Reloc) (next : Option Reloc) (op : Operand) :
    m RelocTarget :=
  match r.kind.toNat with
  | 1 => return .none
  | 0 => return plain r op
  | 2 | 3 => if r.scattered then sectionDifference sums r next op else return unknownKind r
  | 5 =>
    return if op.width = 4 then branch r op (op.address + 8) (armDistance op) else unknownKind r
  | 6 =>
    return if op.width = 4 then branch r op (op.address + 4) (thumbDistance order op)
      else unknownKind r
  | _ => return unknownKind r

def targetArm64 (r : Reloc) (previous : Option Reloc) (op : Operand) : m RelocTarget :=
  let addend := r.suppliedAddend previous
  match r.kind.toNat with
  | 1 | 10 => return .none
  | 0 =>
    if r.external then return toSymbol r (← sums.add op.value addend) op
    else return .address op.raw 0 op.width
  | 2 =>
    return if r.external then toSymbol r addend op
      else .address (displaced op.address (arm64Distance op)) 0 op.width
  | 3 | 5 | 8 =>
    return if r.external then toSymbol r addend op
      else .address (displaced (op.address &&& ~~~(0xfff : UInt64)) (pageDistance op)) 0 op.width
  | 4 | 6 | 9 =>
    return if r.external then toSymbol r addend op
      else .unresolved "page offset of a local address"
  | 7 => return if r.external then toSymbol r 0 op else unknownKind r
  | _ => return unknownKind r

def targetPowerPc (r : Reloc) (next : Option Reloc) (op : Operand) : m RelocTarget :=
  match r.kind.toNat with
  | 1 => return .none
  | 0 => return plain r op
  | 8 | 15 => if r.scattered then sectionDifference sums r next op else return unknownKind r
  | 3 =>
    return if op.width = 4 then
        branch r op (powerPcOrigin op) (signExtend (op.raw &&& 0x3fffffc) 26)
      else unknownKind r
  | 2 =>
    return if op.width = 4 then branch r op (powerPcOrigin op) (signExtend (op.raw &&& 0xfffc) 16)
      else unknownKind r
  | _ => return unknownKind r

/-- Where a relocation points, given the entries before and after it. -/
def target (arch : Arch) (order : ByteOrder) (r : Reloc) (previous next : Option Reloc)
    (op : Operand) : m RelocTarget :=
  match arch with
  | .x86 => r.targetX86 sums next op
  | .x86_64 => r.targetX86_64 sums op
  | .arm => r.targetArm sums order next op
  | .arm64 => r.targetArm64 sums previous op
  | .powerPc | .powerPc64 => r.targetPowerPc sums next op
  | .other cpuType => return .unresolved ("cpu type " ++ hex cpuType.toNat)

end

end Reloc

namespace Section

/-- The entry before the one at `position`. -/
def relocBefore? (home : Section) (position : Nat) : Option Reloc :=
  if position = 0 then none else home.relocs[position - 1]?

/-- Where the relocation at `position` of a section points, with addends summed up by `sums`. -/
def relocTargetBy {m : Type → Type} [Monad m] (sums : Sums m) (image : Image) (home : Section)
    (position : Nat) : m RelocTarget :=
  match home.relocs[position]? with
  | none => return .unresolved "no such relocation"
  | some r =>
    match home.bytesAt? (home.relocAddress r) r.width with
    | none => return .unresolved "operand outside section data"
    | some bytes =>
      r.target sums image.arch image.order (home.relocBefore? position) home.relocs[position + 1]?
        (.of image.order (home.relocAddress r) bytes)

/-- Where the relocation at `position` of a section points. There is no outcome if a sum on the way
overflows: the program stops there. -/
def relocTarget (image : Image) (home : Section) (position : Nat) : Option RelocTarget :=
  home.relocTargetBy .checked image position

end Section

end MachInspect
