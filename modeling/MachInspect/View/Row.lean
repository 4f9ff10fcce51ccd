-- SUMMARY: Rows of a view, the relocations in them, and highlighting.
import MachInspect.Anchor
import MachInspect.Image.Describe
import MachInspect.View.Semantic

/-!
# Rows

A row stands for a range of addresses. Zero-fill rows have a length but no bytes.
-/
namespace MachInspect.View

open Text

-- ---------------------------------------------------------------------------
-- Relocations in rows
-- ---------------------------------------------------------------------------

/-- A relocation, shown under the row whose bytes it patches. -/
structure RelocRow where
  address : UInt64
  /-- The patched bytes, as far as they are in the file. -/
  bytes : Bytes
  value : String
  kind : String
  pcRelative : Bool
  external : Bool
  scattered : Bool
  /-- Where the relocation points; nothing is known of it if a sum overflows. -/
  target : Option RelocTarget
  targetText : String
  deriving DecidableEq, Repr

namespace RelocRow

/-- The row of the relocation at `position` of a section. -/
def of? (index : SymbolIndex) (home : Section) (position : Nat) : Option RelocRow := do
  let r ← home.relocs[position]?
  let address := home.relocAddress r
  let target := home.relocTarget index.image position
  return {
    address
    bytes := (home.bytesAt? address r.width).getD []
    value := index.image.relocValueText r
    kind := Describe.relocKind index.image.arch r.kind
    pcRelative := r.pcRelative
    external := r.external
    scattered := r.scattered
    target
    targetText := (target.map (·.describe index)).getD "" }

/-- Bytes that the relocation takes; one whose bytes are missing counts as one byte. -/
def length (r : RelocRow) : UInt64 := UInt64.ofNat (max 1 r.bytes.length)

/-- The link to the target. -/
def anchor? (r : RelocRow) : Option Anchor := r.target.bind Anchor.ofTarget?

/-- Whether a sum on the way to the target overflows. -/
def overflows (r : RelocRow) : Bool := r.target.isNone

/-- Whether all of the relocation lies in the `length` bytes at `address`. -/
def liesIn (r : RelocRow) (address length : UInt64) : Bool :=
  address ≤ r.address && saturatingAdd r.address r.length ≤ saturatingAdd address length

end RelocRow

-- ---------------------------------------------------------------------------
-- Rows
-- ---------------------------------------------------------------------------

structure Row where
  address : UInt64
  /-- Bytes of the file; none in zero-fill rows. -/
  bytes : Bytes
  /-- Bytes that the row stands for. -/
  length : UInt64
  text : String
  relocs : List RelocRow
  /-- Overlaps the range to highlight. -/
  focused : Bool
  deriving DecidableEq, Repr

namespace Row

/-- A row of bytes. -/
def ofBytes (address : UInt64) (bytes : Bytes) (text : String) : Row where
  address
  bytes
  length := UInt64.ofNat bytes.length
  text
  relocs := []
  focused := false

/-- A row of `length` bytes that are not in the file. -/
def ofZeros (address length : UInt64) (text : String) : Row where
  address
  bytes := []
  length
  text
  relocs := []
  focused := false

/-- Adds the relocations that lie in the `length` bytes from the start of the row. -/
def attach (row : Row) (length : UInt64) (relocs : List RelocRow) : Row :=
  { row with relocs := relocs.filter fun r => r.liesIn row.address length }

end Row

-- ---------------------------------------------------------------------------
-- Highlighting
-- ---------------------------------------------------------------------------

/-- A range to highlight. An empty one still counts as one byte. -/
structure Focus where
  address : UInt64
  size : UInt64
  deriving DecidableEq, Repr

/-- Whether the `length` bytes at `start` overlap the range; no bytes count as one. -/
def Focus.overlaps (f : Focus) (start length : UInt64) : Bool :=
  start < saturatingAdd f.address (max f.size 1)
    && f.address < saturatingAdd start (max length 1)

/-- The rows of a section or a symbol. -/
structure RowView where
  title : String
  semantic : Semantic
  rows : List Row
  warnings : List String
  /-- The target of some relocation overflows, shown or not, or the address of some row. The program
  stops there, and the rows are not shown to anyone. -/
  overflows : Bool
  deriving DecidableEq, Repr

namespace RowView

/-- Position of the first highlighted row. -/
def firstFocused? (v : RowView) : Option Nat := v.rows.findIdx? Row.focused

/-- Highlights exactly the rows that overlap a range. -/
def focus (v : RowView) (f : Focus) : RowView :=
  { v with rows := v.rows.map fun row => { row with focused := f.overlaps row.address row.length } }

end RowView

end MachInspect.View
