-- SUMMARY: The debug information of an image: its units, its strings, and references to types.
import MachInspect.Debug.Units
import MachInspect.Text.Utf8

/-!
# Debug information

Entries name things by strings, which stand in the entry itself or in a string section, and refer
to each other by offsets within the unit or within all of the debug information.
-/
namespace MachInspect.Debug

open Text

/-- The debug information of an image. -/
structure Info where
  sections : Sections
  units : List CompilationUnit
  deriving DecidableEq, Repr

/-- What was being done when reading failed. -/
def during (step : DebugStep) : Except DebugFault α → Except Error α
  | .ok a => .ok a
  | .error fault => .error (.debug step fault)

namespace Info

/-- The debug information, or nothing if it is absent or any of its units is broken. -/
def of? (image : Image) : Option Info := do
  let sections ← Sections.of? image
  match readUnits image.order sections (sections.info.length + 1) 0 with
  | .ok units => some ⟨sections, units⟩
  | .error _ => none

-- ---------------------------------------------------------------------------
-- Strings
-- ---------------------------------------------------------------------------

/-- The string that starts at an offset of a section. -/
def stringFrom (data : Bytes) (offset : Nat) : Except DebugFault Bytes :=
  if data.length < offset then .error .unexpectedEnd else Scan.terminated.run' (data.drop offset)

/-- Where the string of a number starts. -/
def stringOffset (info : Info) (u : CompilationUnit) (index : Nat) : Except DebugFault Nat :=
  let start := tableEntry u.stringOffsetsBase index u.offsetSize
  (u.number u.offsetSize).run' (info.sections.stringOffsets.drop start)

/-- The string that an attribute stands for. -/
def string (info : Info) (u : CompilationUnit) : AttributeValue → Except DebugFault Bytes
  | .string bytes => .ok bytes
  | .stringAt offset => stringFrom info.sections.strings offset
  | .lineStringAt offset => stringFrom info.sections.lineStrings offset
  | .stringNumber index => do
    stringFrom info.sections.strings (← info.stringOffset u index)
  | _ => .error .notAString

/-- The name of an entry, if it has one. -/
def entryName (info : Info) (u : CompilationUnit) (e : Entry) : Except Error (Option String) := do
  match ← during .nameAttribute (u.attribute? e 0x03) with
  | none => return none
  | some value => return some (Utf8.lossy (← during .stringValue (info.string u value)))

-- ---------------------------------------------------------------------------
-- References
-- ---------------------------------------------------------------------------

/-- Where an entry is: its unit, and its offset from the start of the unit. -/
structure Place where
  home : CompilationUnit
  offset : Nat

/-- The place that a reference from unit `u` means. A section-wide offset belongs to the first unit
whose entries cover it. -/
def locate (info : Info) (u : CompilationUnit) : AttributeValue → Option Place
  | .unitReference offset => some ⟨u, offset⟩
  | .sectionReference target =>
    let covers (v : CompilationUnit) : Bool :=
      v.offset ≤ target && (v.entriesFrom (target - v.offset)).isOk
    (info.units.find? covers).map fun v => ⟨v, target - v.offset⟩
  | _ => none

end Info

end MachInspect.Debug
