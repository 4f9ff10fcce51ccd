-- SUMMARY: Relocation tables as columns of text.
import MachInspect.Image.Describe
import MachInspect.Symbols.Index

/-!
# Relocation tables
-/
namespace MachInspect

open Text

/-- A relocation entry in words. External is empty for scattered entries, and the other way
round. -/
structure RelocColumns where
  address : String
  value : String
  kind : String
  length : String
  pcRelative : String
  external : String
  scattered : String
  deriving DecidableEq, Repr

namespace RelocColumns

def header : List String :=
  ["Address", "Value", "Type", "Length", "PC Relative", "Extern", "Scattered"]

def toList (c : RelocColumns) : List String :=
  [c.address, c.value, c.kind, c.length, c.pcRelative, c.external, c.scattered]

def yesNo (b : Bool) : String := if b then "true" else "false"

def of (image : Image) (r : Reloc) (address : String) : RelocColumns where
  address
  value := image.relocValueText r
  kind := Describe.relocKind image.arch r.kind
  length := Describe.relocLength r.length
  pcRelative := yesNo r.pcRelative
  external := if r.scattered then "" else yesNo r.external
  scattered := if r.scattered then "true" else ""

end RelocColumns

namespace Image

/-- `1 (__TEXT,__text) (12)`: number, name and relocation count of each section. -/
def sectionLines (image : Image) : List String :=
  image.sections.map fun s =>
    decimal s.index ++ " (" ++ s.label ++ ") (" ++ decimal s.relocs.length ++ ")"

/-- The relocations of a section, at their offsets. -/
def sectionRelocs (image : Image) (s : Section) : List RelocColumns :=
  s.relocs.map fun r => .of image r (hexWide 16 r.address.toNat)

/-- The relocations of a symbol group, at offset plus section address. -/
def groupRelocs (image : Image) (g : SymbolGroup) : List RelocColumns :=
  g.relocs.map fun b =>
    let offset := hexWide 16 b.reloc.address.toNat
    .of image b.reloc <|
      match image.sectionAt? (UInt32.ofNat b.host) with
      | some home => offset ++ "+" ++ addressText home.addr ++ " (" ++ home.label ++ ")"
      | none => offset

end Image

end MachInspect
