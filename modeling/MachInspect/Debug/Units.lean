-- SUMMARY: Reading the units of an image's debug information.
import MachInspect.Debug.Entry
import MachInspect.Debug.LineTable
import MachInspect.Image.Basic

/-!
# Reading units

A unit is read with its abbreviations and with what its root says about it. A fault in the header,
the abbreviations, the root or what the root refers to makes the unit unreadable.
-/
namespace MachInspect.Debug

-- ---------------------------------------------------------------------------
-- Sections
-- ---------------------------------------------------------------------------

/-- The debug sections of an image. -/
structure Sections where
  info : Bytes
  abbreviations : Bytes
  strings : Bytes
  lineStrings : Bytes
  stringOffsets : Bytes
  addresses : Bytes
  /-- Line number tables. -/
  lines : Bytes
  deriving DecidableEq, Repr

/-- A debug section by name. Names of sections have at most sixteen characters. -/
def debugSection? (image : Image) (name : String) : Option Bytes :=
  (image.sectionNamed? "__DWARF" (String.ofList (name.toList.take 16))).map Section.data

/-- The debug sections, if there is debug information at all. -/
def Sections.of? (image : Image) : Option Sections := do
  let info ← debugSection? image "__debug_info"
  let other (name : String) := (debugSection? image name).getD []
  return ⟨info, other "__debug_abbrev", other "__debug_str", other "__debug_line_str",
    other "__debug_str_offsets", other "__debug_addr", other "__debug_line"⟩

-- ---------------------------------------------------------------------------
-- Units
-- ---------------------------------------------------------------------------

/-- What a unit header holds besides its length. -/
structure UnitHeader where
  version : Nat
  addressSize : Nat
  /-- Where the abbreviations of the unit start. -/
  abbreviations : Nat

/-- The fields of a unit header after its length. -/
def scanUnitHeader (order : ByteOrder) (offsetSize : Nat) : Scan UnitHeader := do
  let version ← Scan.number order 2
  if 2 ≤ version ∧ version ≤ 4 then
    let abbreviations ← Scan.number order offsetSize
    return ⟨version, ← Scan.addressSize, abbreviations⟩
  else if version = 5 then
    let kind ← Scan.number order 1
    let addressSize ← Scan.addressSize
    let abbreviations ← Scan.number order offsetSize
    match kind with
    | 1 | 3 => pure ()
    | 2 | 6 => discard (Scan.bytes (8 + offsetSize))
    | 4 | 5 => discard (Scan.bytes 8)
    | _ => throw .badUnitHeader
    return ⟨version, addressSize, abbreviations⟩
  else throw .badUnitHeader

/-- What the root of a unit says about the unit. -/
structure UnitRoot where
  stringOffsetsBase : Nat := 0
  addressBase : Nat := 0
  lineTable : Option Nat := none
  lowAddress : Option AttributeValue := none

/-- Takes one attribute of the root into account; the last one of a kind counts. -/
def UnitRoot.note (root : UnitRoot) : Nat × AttributeValue → UnitRoot
  | (0x10, .sectionOffset offset) => { root with lineTable := some offset }
  | (0x11, value) => { root with lowAddress := some value }
  | (0x72, .sectionOffset offset) => { root with stringOffsetsBase := offset }
  | (0x73, .sectionOffset offset) => { root with addressBase := offset }
  | (0x2133, .sectionOffset offset) => { root with addressBase := offset }
  | _ => root

/-- Where a table entry of `size` bytes starts: offsets are of 64 bits. -/
def tableEntry (base index size : Nat) : Nat := base + index * size % 2 ^ 64

/-- Checks what the root refers to: the line number table, and the address in the table of
addresses. -/
def UnitRoot.check (root : UnitRoot) (e : Encoding) (sections : Sections) :
    Except DebugFault Unit := do
  match root.lineTable with
  | some offset => LineTable.check e sections.lines offset
  | none => pure ()
  match root.lowAddress with
  | some (.addressNumber index) =>
    let start := tableEntry root.addressBase index e.addressSize
    discard ((e.number e.addressSize).run' (sections.addresses.drop start))
  | _ => pure ()

/-- The unit at `offset` of the debug information, and where the next one starts. -/
def readUnit (order : ByteOrder) (sections : Sections) (offset : Nat) :
    Except DebugFault (CompilationUnit × Nat) := do
  let start := sections.info.drop offset
  let ((length, offsetSize), rest) ← (Scan.initialLength order).run start
  let lengthSize := start.length - rest.length
  if rest.length < length then .error .unexpectedEnd
  let body := rest.take length
  let (header, entries) ← (scanUnitHeader order offsetSize).run body
  let u : CompilationUnit :=
    { order, offset, offsetSize, entries
      version := header.version
      addressSize := header.addressSize
      headerSize := lengthSize + length - entries.length
      abbreviations := ← abbreviationsAt sections.abbreviations header.abbreviations
      stringOffsetsBase := 0 }
  let entry ← u.firstEntry (entries.length + 1) entries
  let attributes ← (u.scanAll entry.abbreviation.attributes).run' entry.rest
  let root : UnitRoot := attributes.foldl UnitRoot.note {}
  root.check u.toEncoding sections
  return ({ u with stringOffsetsBase := root.stringOffsetsBase }, offset + lengthSize + length)

/-- All units from `offset` on. -/
def readUnits (order : ByteOrder) (sections : Sections) :
    (fuel offset : Nat) → Except DebugFault (List CompilationUnit)
  | 0, _ => .ok []
  | fuel + 1, offset => do
    if sections.info.length ≤ offset then return []
    else
      let (u, next) ← readUnit order sections offset
      return u :: (← readUnits order sections fuel next)

end MachInspect.Debug
