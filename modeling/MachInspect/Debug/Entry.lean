-- SUMMARY: Units of debug information and their entries.
import MachInspect.Debug.Attribute

/-!
# Units and entries

Debug information is a row of units. A unit holds a tree of entries, written in depth-first order:
an entry that has children is followed by them and by a null. Each entry names an abbreviation,
which says what attributes follow and in what form.
-/
namespace MachInspect.Debug

-- ---------------------------------------------------------------------------
-- Abbreviations
-- ---------------------------------------------------------------------------

structure Abbreviation where
  code : Nat
  tag : Nat
  hasChildren : Bool
  attributes : List AttributeSpec
  deriving DecidableEq, Repr

/-- The form that stores its value in the abbreviation. -/
def implicitConst : Nat := 0x21

/-- Attribute specifications up to the pair of zeros that closes the list. -/
def scanSpecs : (fuel : Nat) → Scan (List AttributeSpec)
  | 0 => throw .unexpectedEnd
  | fuel + 1 => do
    let name ← Scan.uleb16
    let form ← Scan.uleb16
    if name = 0 ∧ form = 0 then return []
    else if name = 0 ∨ form = 0 then throw .badAbbreviation
    else
      let constant ← if form = implicitConst then Scan.sleb else pure 0
      return ⟨name, form, constant⟩ :: (← scanSpecs fuel)

/-- Abbreviations up to a zero code or the end of the section. -/
def scanAbbreviations : (fuel : Nat) → Scan (List Abbreviation)
  | 0 => return []
  | fuel + 1 => do
    if (← get).isEmpty then return []
    else
      let code ← Scan.uleb
      if code = 0 then return []
      else
        let tag ← Scan.uleb16
        if tag = 0 then throw .badAbbreviation
        let children ← Scan.number .little 1
        if 1 < children then throw .badAbbreviation
        let attributes ← scanSpecs (← get).length
        let rest ← scanAbbreviations fuel
        if rest.any fun a => a.code == code then throw .badAbbreviation
        return ⟨code, tag, children = 1, attributes⟩ :: rest

/-- The abbreviations at `offset` of their section. -/
def abbreviationsAt (data : Bytes) (offset : Nat) : Except DebugFault (List Abbreviation) :=
  if data.length < offset then .error .unexpectedEnd
  else (scanAbbreviations (data.length + 1)).run' (data.drop offset)

-- ---------------------------------------------------------------------------
-- Units
-- ---------------------------------------------------------------------------

/-- A unit of debug information. -/
structure CompilationUnit extends Encoding where
  /-- Where the unit starts in the debug information. -/
  offset : Nat
  headerSize : Nat
  /-- The entries. -/
  entries : Bytes
  abbreviations : List Abbreviation
  /-- Where the unit's table of string offsets starts. -/
  stringOffsetsBase : Nat
  deriving DecidableEq, Repr

/-- A debug entry. Its attributes are still to be read. -/
structure Entry where
  abbreviation : Abbreviation
  /-- Where the attributes start, and all that follows. -/
  rest : Bytes
  deriving DecidableEq, Repr

def Entry.tag (e : Entry) : Nat := e.abbreviation.tag

namespace CompilationUnit

/-- Scans attributes until one has the given name. -/
def findAttribute (u : CompilationUnit) (name : Nat) :
    List AttributeSpec → Scan (Option AttributeValue)
  | [] => return none
  | spec :: rest => do
    let value ← u.scanValue spec
    if spec.name = name then return some value else u.findAttribute name rest

/-- The first attribute of a name. What follows it is not looked at. -/
def attribute? (u : CompilationUnit) (e : Entry) (name : Nat) :
    Except DebugFault (Option AttributeValue) :=
  (u.findAttribute name e.abbreviation.attributes).run' e.rest

/-- Scans all attributes. -/
def scanAll (u : CompilationUnit) : List AttributeSpec → Scan (List (Nat × AttributeValue))
  | [] => return []
  | spec :: rest => do
    let value ← u.scanValue spec
    return (spec.name, value) :: (← u.scanAll rest)

/-- What follows the attributes of an entry. -/
def afterAttributes (u : CompilationUnit) (e : Entry) : Except DebugFault Bytes :=
  ((u.scanAll e.abbreviation.attributes).run e.rest).map Prod.snd

/-- The entry at the start of some bytes; nothing for a null. -/
def scanEntry (u : CompilationUnit) : Scan (Option Entry) := do
  let code ← Scan.uleb
  if code = 0 then return none
  else
    match u.abbreviations.find? fun a => a.code == code with
    | none => throw .unknownAbbreviation
    | some abbreviation => return some ⟨abbreviation, ← get⟩

/-- What stands at an offset from the start of the unit. -/
def entriesFrom (u : CompilationUnit) (offset : Nat) : Except DebugFault Bytes :=
  if u.headerSize ≤ offset ∧ offset - u.headerSize < u.entries.length then
    .ok (u.entries.drop (offset - u.headerSize))
  else .error .offsetOutOfBounds

/-- The entry at an offset from the start of the unit. -/
def entryAt (u : CompilationUnit) (offset : Nat) : Except DebugFault Entry := do
  match ← u.scanEntry.run' (← u.entriesFrom offset) with
  | some e => return e
  | none => .error .noEntry

/-- Where the next sibling of an entry is stored, if the entry says so. `start` is where the entry
itself starts; only what lies ahead counts. -/
def siblingOf? (u : CompilationUnit) (start : Bytes) (e : Entry) : Option Bytes :=
  match u.attribute? e 0x01 with
  | .ok (some (.unitReference offset)) =>
    match u.entriesFrom offset with
    | .ok ahead => if ahead.length < start.length then some ahead else none
    | .error _ => none
  | _ => none

/-- Entries of a list of children, and the fault that cut the list short, if any. -/
structure Children where
  entries : List Entry
  fault : Option DebugFault

/-- Collects children. `depth` counts the open entries below the list: what is nested in a child is
passed over. The list ends with its null, or with the unit. -/
def collect (u : CompilationUnit) : (fuel depth : Nat) → Bytes → Children
  | 0, _, _ => ⟨[], none⟩
  | fuel + 1, depth, start =>
    if start.isEmpty then ⟨[], none⟩
    else
      match u.scanEntry.run start with
      | .error fault => ⟨[], some fault⟩
      | .ok (none, rest) =>
        match depth with
        | 0 => ⟨[], none⟩
        | depth + 1 => u.collect fuel depth rest
      | .ok (some e, _) =>
        let later :=
          match e.abbreviation.hasChildren, u.siblingOf? start e with
          | true, some ahead => u.collect fuel depth ahead
          | hasChildren, _ =>
            match u.afterAttributes e with
            | .error fault => ⟨[], some fault⟩
            | .ok rest => u.collect fuel (if hasChildren then depth + 1 else depth) rest
        if depth = 0 then ⟨e :: later.entries, later.fault⟩ else later

/-- The children of an entry. -/
def children (u : CompilationUnit) (e : Entry) : Children :=
  if e.abbreviation.hasChildren then
    match u.afterAttributes e with
    | .error fault => ⟨[], some fault⟩
    | .ok rest => u.collect (rest.length + 1) 0 rest
  else ⟨[], none⟩

/-- The entry at the start of some bytes, which must not be a null. -/
def rootAt (u : CompilationUnit) (start : Bytes) : Except DebugFault Entry := do
  match ← u.scanEntry.run' start with
  | some e => return e
  | none => .error .unexpectedNull

/-- The first entry that is not a null. -/
def firstEntry (u : CompilationUnit) : (fuel : Nat) → Bytes → Except DebugFault Entry
  | 0, _ => .error .missingRoot
  | fuel + 1, start =>
    if start.isEmpty then .error .missingRoot
    else do
      match ← u.scanEntry.run start with
      | (some e, _) => return e
      | (none, rest) => u.firstEntry fuel rest

end CompilationUnit

end MachInspect.Debug
