-- SUMMARY: Fields of headers, symbols and relocations in words.
import MachInspect.Image.Basic
import MachInspect.Image.FlagSet

/-!
# Fields in words

Numbers keep their place in front, so that nothing is lost when a name is unknown.
-/
namespace MachInspect.Describe

open Text

/-- `0x00000002 (MH_EXECUTE)`. -/
def named (table : List (UInt32 × String)) (value : UInt32) : String :=
  (FlagEntry.named value.toNat (Names.find? table value)).text 8

def magic (value : UInt32) : String := named Names.magics value

def cpuType (value : UInt32) : String := named Names.cpuTypes value

def cpuSubtype (type subtype : UInt32) : String :=
  FlagEntry.lines 8 (FlagEntry.cpuSubtype type subtype)

def fileType (value : UInt32) : String := named Names.fileTypes value

def fileFlags (flags : UInt32) : String := FlagEntry.lines 8 (FlagEntry.fileFlags flags)

def segmentFlags (flags : UInt32) : String := FlagEntry.lines 8 (FlagEntry.segmentFlags flags)

def sectionFlags (flags : UInt32) : String := FlagEntry.lines 8 (FlagEntry.sectionFlags flags)

def symbolType (kind : UInt8) : String := FlagEntry.lines 2 (FlagEntry.symbolType kind)

def loadCommandName (tag : UInt32) : String := (Names.find? Names.loadCommands tag).getD "?"

def loadCommand (tag : UInt32) : String := named Names.loadCommands tag

/-- A packed version: `0x00010203 (1.2.3)`. -/
def version (value : UInt32) : String :=
  let n := value.toNat
  hexWide 8 n ++ " (" ++ decimal (n / 0x10000) ++ "." ++ decimal (n / 0x100 % 0x100) ++ "."
    ++ decimal (n % 0x100) ++ ")"

/-- Memory protection: `0o5 (r-x)`. -/
def protection (value : UInt32) : String :=
  let letter (bit : UInt32) (c : Char) := if value &&& bit ≠ 0 then c else '-'
  octal value.toNat ++ " (" ++ String.ofList [letter 1 'r', letter 2 'w', letter 4 'x'] ++ ")"

/-- `2 (X86_64_RELOC_BRANCH)`. -/
def relocKind (arch : Arch) (kind : UInt8) : String :=
  decimal kind.toNat ++ " (" ++ (Names.find? (Names.relocs arch) kind).getD "?" ++ ")"

/-- The operand size that a relocation length stands for. -/
def relocLength (length : UInt8) : String :=
  let name := match length.toNat with
    | 0 => "byte"
    | 1 => "word"
    | 2 => "long"
    | 3 => "quad"
    | _ => "?"
  decimal length.toNat ++ " (" ++ name ++ ")"

end Describe

namespace Image

open Text

/-- `seg,sect` of a section number. -/
def sectionLabel? (image : Image) (number : UInt32) : Option String :=
  (image.sectionAt? number).map Section.label

/-- A number with the name of what it refers to: `3 (_main)`, `9 (?)`. -/
def referenceText (number : Nat) (name : Option String) : String :=
  decimal number ++ " (" ++ name.getD "?" ++ ")"

/-- A symbol's section column. -/
def sectionNumberText (image : Image) (number : UInt8) : String :=
  if number = 0 then "0 (NO_SECT)"
  else referenceText number.toNat (image.sectionLabel? number.toUInt32)

/-- The library that an ordinal of the two-level namespace names. -/
def libraryOrdinal (image : Image) (ordinal : Nat) : Option String :=
  if ordinal = 0 then some "SELF_LIBRARY_ORDINAL"
  else if ordinal = 0xfe then some "DYNAMIC_LOOKUP_ORDINAL"
  else if ordinal = 0xff then some "EXECUTABLE_ORDINAL"
  else image.importedLibraries[ordinal - 1]?

/-- Header flag of images whose symbols name their library. -/
def isTwoLevel (image : Image) : Bool := image.header.flags &&& 0x80 ≠ 0

/-- The description word of a symbol. Which bits mean what depends on whether the symbol is
undefined, whether others can see it, and whether the file is linked. -/
def descEntries (image : Image) (s : Symbol) : List FlagEntry :=
  if s.isStab then [⟨s.desc.toNat, none⟩]
  else
    let undefined := s.type == Symbol.undefinedType || s.type == Symbol.preboundType
    let visible := s.isExternal || s.isPrivateExternal
    let object := image.isObject
    let common := s.type == Symbol.undefinedType && s.value != 0
    let reference (v : UInt32) := (Names.find? Names.referenceTypes v.toUInt16).getD "?"
    let alignment (v : UInt32) := "alignment: " ++ decimal (2 ^ (v.toNat / 0x100))
    let library (v : UInt32) := (image.libraryOrdinal (v.toNat / 0x100)).getD "?"
    let entries :=
      (Peeling.start s.desc.toUInt32
        |>.when undefined (.field 0x7 reference)
        |>.flag 0x8 "N_ARM_THUMB_DEF"
        |>.when visible (.flag 0x10 "REFERENCED_DYNAMICALLY")
        |>.when object (.flag 0x20 "N_NO_DEAD_STRIP")
        |>.when (object && common) (.field 0xf00 alignment)
        |>.when (!object) (.flag 0x20 "N_DESC_DISCARDED")
        |>.when undefined (.flag 0x40 "N_WEAK_REF")
        |>.when undefined (.flag 0x80 "N_REF_TO_WEAK")
        |>.when (!undefined && visible) (.flag 0x80 "N_WEAK_DEF")
        |>.when object (.flag 0x100 "N_SYMBOL_RESOLVER")
        |>.when object (.flag 0x200 "N_ALT_ENTRY")
        |>.when (!object && image.isTwoLevel && undefined) (.field 0xff00 library)).finish
    if entries.isEmpty then [⟨0, none⟩] else entries

def descText (image : Image) (s : Symbol) : String := FlagEntry.lines 4 (image.descEntries s)

/-- A symbol's value column: an address, or the size of a common symbol. -/
def valueText (s : Symbol) : String :=
  if s.isStab then addressText s.value
  else if s.type = Symbol.undefinedType then
    if s.value = 0 then ""
    else decimal s.value.toNat ++ " (size: " ++ decimal s.value.toNat ++ ")"
  else if s.type = Symbol.preboundType then
    if s.value = 0 then "" else decimal s.value.toNat ++ " (?)"
  else addressText s.value

/-- The letter of a symbol in listings, lower case. -/
def localLetter? (image : Image) (s : Symbol) : Option Char :=
  if s.type = Symbol.undefinedType then some (if s.value = 0 then 'u' else 'c')
  else if s.type = Symbol.absoluteType then some 'a'
  else if s.type = Symbol.sectionType then
    if s.sect = 0 then some 'b'
    else
      match image.home? s with
      | some home =>
        if home.segmentName = "__TEXT" ∧ home.name = "__text" then some 't'
        else if home.segmentName = "__DATA" ∧ home.name = "__data" then some 'd'
        else some 's'
      | none => some 's'
  else if s.type = Symbol.preboundType then some 'u'
  else if s.type = Symbol.indirectType then some 'i'
  else none

/-- The letter of a symbol in listings; upper case for external symbols. -/
def letter (image : Image) (s : Symbol) : Char :=
  if s.isStab then '-'
  else
    match image.localLetter? s with
    | some c => if s.isExternal then c.toUpper else c
    | none => '?'

/-- A relocation's value column: `3 (_main)`, `2 (__TEXT,__text)`, or a scattered address. -/
def relocValueText (image : Image) (r : Reloc) : String :=
  if r.scattered then hexWide 16 r.value.toNat ++ " (?)"
  else if r.external then
    referenceText r.value.toNat ((image.symbol? r.value).map Symbol.name)
  else referenceText r.value.toNat (image.sectionLabel? r.value)

end Image

end MachInspect
