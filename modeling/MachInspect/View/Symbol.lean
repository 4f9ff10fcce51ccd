-- SUMMARY: The rows of a symbol, also through its declared type.
import MachInspect.Value.Render
import MachInspect.View.Section

/-!
# Views of symbols

A symbol is shown with the extent of its group. Through its declared type it takes one row; if that
type is not known, it is shown as data.
-/
namespace MachInspect.View

open Text Value

/-- What is known of a variable's declared type. -/
inductive Declaration where
  /-- There is no debug information. -/
  | unavailable
  /-- The debug information has no type for the variable. -/
  | absent
  | broken (error : Error)
  | found (type : ValueType)

/-- What a group of a section stores. What is missing at the end is left out. -/
def groupContents (home : Section) (g : SymbolGroup) : Contents :=
  if home.isZeroFill then .zeroFill g.size
  else if home.addr ≤ g.address then
    .present ((home.data.drop (g.address.toNat - home.addr.toNat)).take g.size.toNat)
  else .present []

/-- The relocations bound to a group. -/
def groupRelocRows (index : SymbolIndex) (g : SymbolGroup) : List RelocRow :=
  g.relocs.filterMap fun b => do
    RelocRow.of? index (← index.image.sectionAt? (UInt32.ofNat b.host)) b.position

/-- One row that shows contents as a value of a type. -/
def typedRow (ctx : Context) (name : String) (type : ValueType) (relocs : List RelocRow)
    (address : UInt64) (contents : Contents) : Decoded :=
  let (storage, bytes, length) : Storage × Bytes × UInt64 := match contents with
    | .present data => (.bytes data, data, UInt64.ofNat data.length)
    | .zeroFill length => (.zeros length.toNat, [], length)
  let (text, warnings) := match render ⟨ctx.image.order, ctx.longDouble?⟩ true storage type with
    | .ok text => (text, [])
    | .error e => (storage.ascii, [name ++ " as " ++ type.name ++ ": " ++ e.message])
  ⟨[(Row.ofBytes address bytes text).attach length relocs], warnings⟩

/-- Contents shown through the declared type of the variable `name`. -/
def declaredRows (ctx : Context) (name : String) (declaration : Declaration)
    (relocs : List RelocRow) (address : UInt64) (contents : Contents) : Decoded :=
  let asData (warning : String) : Decoded :=
    let decoded := contents.decode ctx .data relocs address
    ⟨decoded.rows, warning :: decoded.warnings⟩
  match declaration with
  | .unavailable => asData "no DWARF information loaded"
  | .absent => asData ("no DWARF variable for " ++ name)
  | .broken e => asData ("DWARF type of " ++ name ++ ": " ++ e.message)
  | .found type => typedRow ctx name type relocs address contents

/-- The bytes of a symbol's contents that are missing from the file. -/
def missingContents (name : String) (size : UInt64) : Contents → List String
  | .present data => missingBytes name data.length size
  | .zeroFill _ => []

/-- A symbol with its group and the section that it is declared in. -/
structure Place where
  symbol : Symbol
  group : SymbolGroup
  home : Section

/-- Where the symbol with number `number` is, if it stands for bytes of a section. -/
def symbolPlace (ctx : Context) (number : UInt64) : Except Error Place := do
  let some s := ctx.image.symbols[number.toNat]? | throw (.outOfRange .symbols number)
  let some g := ctx.index.groupOf? number.toNat | throw (.misuse (.symbolNotInSection s.name))
  let some home := ctx.image.home? s | throw (.outOfRange .sections s.sect.toUInt64)
  return ⟨s, g, home⟩

/-- The rows of a symbol. The declaration only matters if the declared type is asked for. -/
def Place.view (ctx : Context) (place : Place) (semantic : Semantic) (declaration : Declaration) :
    RowView :=
  let name := place.symbol.name
  let g := place.group
  let contents := groupContents place.home g
  let relocs := groupRelocRows ctx.index g
  let decoded :=
    if semantic = .declared then declaredRows ctx name declaration relocs g.address contents
    else contents.decode ctx semantic relocs g.address
  { title := name ++ " (" ++ place.home.label ++ ")"
    semantic
    rows := decoded.rows
    warnings := missingContents name g.size contents ++ decoded.warnings
    overflows := relocs.any RelocRow.overflows }

/-- The rows of the symbol with number `number`. -/
def symbolView (ctx : Context) (number : UInt64) (semantic : Semantic)
    (declaration : Declaration) : Except Error RowView := do
  return (← symbolPlace ctx number).view ctx semantic declaration

end MachInspect.View
