-- SUMMARY: The rows of a whole section.
import MachInspect.View.Region

/-!
# Views of sections
-/
namespace MachInspect.View

open Text

/-- Says that a range is longer than what the file holds of it. -/
def missingBytes (name : String) (present : Nat) (size : UInt64) : List String :=
  if present < size.toNat then
    [name ++ ": only " ++ hex present ++ " of " ++ hex size.toNat ++ " bytes present in the file"]
  else []

/-- The bytes of a section that the file holds. -/
def sectionBytes (s : Section) : Bytes := s.data.take s.size.toNat

/-- What a section stores. -/
def sectionContents (s : Section) : Contents :=
  if s.isZeroFill then .zeroFill s.size else .present (sectionBytes s)

/-- The relocations of a section that stand on their own. -/
def sectionRelocRows (index : SymbolIndex) (s : Section) : List RelocRow :=
  let own := s.relocs.zipIdx.filter fun (r, _) => !Reloc.isPair index.image.arch r
  own.filterMap fun (_, position) => RelocRow.of? index s position

/-- Sections have no declared type; they are shown as data instead. -/
def sectionSemantic : Semantic → Semantic × List String
  | .declared => (.data, ["DWARF types apply to symbols, not sections; showing data"])
  | other => (other, [])

/-- Whether the address of some row goes around the end of the address space. Rows of zeros may. -/
def addressesOverflow (s : Section) (rows : List Row) : Bool :=
  !s.isZeroFill && rows.any fun row => row.address < s.addr

/-- The rows of a section. -/
def sectionView (ctx : Context) (s : Section) (semantic : Semantic) : RowView :=
  let (semantic, replaced) := sectionSemantic semantic
  let missing := if s.isZeroFill then [] else missingBytes s.label (sectionBytes s).length s.size
  let relocs := sectionRelocRows ctx.index s
  let decoded := (sectionContents s).decode ctx semantic relocs s.addr
  { title := s.label
    semantic
    rows := decoded.rows
    warnings := missing ++ replaced ++ decoded.warnings
    overflows := relocs.any RelocRow.overflows || addressesOverflow s decoded.rows }

end MachInspect.View
