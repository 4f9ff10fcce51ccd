-- SUMMARY: The symbol table as rows of text.
import MachInspect.Image.Describe
import MachInspect.Symbols.Demangle

/-!
# Symbol listings
-/
namespace MachInspect

/-- A symbol with every field in words. -/
structure SymbolRow where
  index : Nat
  raw : String
  /-- With the path of a mangled name. -/
  name : String
  kind : String
  home : String
  desc : String
  value : String
  letter : Char
  deriving DecidableEq, Repr

/-- Every symbol, in table order. -/
def Image.symbolRows (image : Image) : List SymbolRow :=
  image.symbols.mapIdx fun index s =>
    { index
      raw := s.name
      name := Demangle.listed s.name
      kind := Describe.symbolType s.kind
      home := image.sectionNumberText s.sect
      desc := image.descText s
      value := Image.valueText s
      letter := image.letter s }

end MachInspect
