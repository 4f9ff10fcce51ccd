-- SUMMARY: Every way an inspection can fail, as causes, with their wording.
import MachInspect.Text.Hex

/-!
# Errors

An error records what went wrong; `Error.message` is the only place that words it. Most failures
are local: a row, a relocation or a call-frame record that cannot be decoded is shown as such, and
the rest of the file is still decoded.
-/
namespace MachInspect

open Text

/-- What was being read when the bytes ran out or a number failed to end in time. -/
inductive Item where
  | uleb128
  | sleb128
  | encodedPointer
  | recordLength
  | extendedLength
  | cieId
  | cieVersion
  | augmentationString
  | ehData
  | returnRegister
  | pointerEncoding
  | augmentationData
  | callFrameRecord
  | structField
  | typedValue
  deriving DecidableEq, Repr

def Item.name : Item → String
  | .uleb128 => "uleb128"
  | .sleb128 => "sleb128"
  | .encodedPointer => "encoded pointer"
  | .recordLength => "record length"
  | .extendedLength => "extended length"
  | .cieId => "CIE id"
  | .cieVersion => "CIE version"
  | .augmentationString => "augmentation string"
  | .ehData => "EH data"
  | .returnRegister => "return address register"
  | .pointerEncoding => "pointer encoding"
  | .augmentationData => "augmentation data"
  | .callFrameRecord => "record"
  | .structField => "struct field"
  | .typedValue => "DWARF value"

/-- A table that an index can point outside of. -/
inductive Table where
  | sections
  | symbols
  | addresses
  deriving DecidableEq, Repr

def Table.name : Table → String
  | .sections => "section"
  | .symbols => "symbol"
  | .addresses => "address"

/-- Shapes and encodings that are recognised but not decoded. -/
inductive Unsupported where
  | pointerFormat (format : UInt8)
  | bitField (name : String)
  | incompleteField (name : String)
  | incompleteType (name : String)
  | incompleteElement
  | scalarSize (size : UInt64) (type : String)
  | integerSize (size : UInt64)
  | floatSize (size : Nat)
  | complexSize (size : UInt64)
  | longDouble
  | typeChain
  | typeReference
  | baseEncodingMissing
  | baseEncoding (name : String)
  | arrayElement
  | arrayBound
  | typedefOfVoid
  | qualifiedVoid (qualifier : String)
  | typeTag (name : String)
  | memberType (name : String)
  | memberLocation
  deriving DecidableEq, Repr

def Unsupported.message : Unsupported → String
  | .pointerFormat format => "pointer format " ++ hexWide 2 format.toNat
  | .bitField name => "bit-field " ++ name
  | .incompleteField name => "incomplete field " ++ name
  | .incompleteType name => "incomplete type " ++ name
  | .incompleteElement => "incomplete array element"
  | .scalarSize size type => decimal size.toNat ++ "-byte " ++ type
  | .integerSize size => decimal size.toNat ++ "-byte integer"
  | .floatSize size => decimal size ++ "-byte float"
  | .complexSize size => decimal size.toNat ++ "-byte complex"
  | .longDouble => "long double on this host"
  | .typeChain => "type reference chain too deep"
  | .typeReference => "unresolvable type reference"
  | .baseEncodingMissing => "base type without encoding"
  | .baseEncoding name => "base type encoding " ++ name
  | .arrayElement => "array without element type"
  | .arrayBound => "array without bound"
  | .typedefOfVoid => "typedef of void"
  | .qualifiedVoid qualifier => qualifier ++ " void"
  | .typeTag name => "DWARF type tag " ++ name
  | .memberType name => "member " ++ name ++ " without type"
  | .memberLocation => "computed member location"

/-- Requests that make no sense for the file at hand. -/
inductive Misuse where
  | anchor (text : String)
  | semantic (text : String)
  | address (text : String)
  | symbolNotInSection (name : String)
  | symbolWithoutExtent (index : UInt64)
  | noSection (spec : String)
  | noSymbol (spec : String)
  | noFrameSection
  deriving DecidableEq, Repr

def Misuse.message : Misuse → String
  | .anchor text => "malformed anchor '" ++ text ++ "'"
  | .semantic text => "unknown semantic type '" ++ text ++ "'"
  | .address text => "invalid address '" ++ text ++ "'"
  | .symbolNotInSection name => name ++ " is not defined in a section"
  | .symbolWithoutExtent index => "symbol " ++ decimal index.toNat ++ " has no extent"
  | .noSection spec => "no section '" ++ spec ++ "'"
  | .noSymbol spec => "no symbol '" ++ spec ++ "'"
  | .noFrameSection => "no __TEXT,__eh_frame section"

/-- File kinds told apart by their first bytes. -/
inductive FileKind where
  | elf32
  | elf64
  | archive
  | dyldCache
  | coff
  | coffImport
  | coffBig
  | pe32
  | pe64
  | xcoff32
  | xcoff64
  | thin32
  | thin64
  | fat32
  | fat64
  deriving DecidableEq, Repr

def FileKind.name : FileKind → String
  | .elf32 => "Elf32"
  | .elf64 => "Elf64"
  | .archive => "Archive"
  | .dyldCache => "DyldCache"
  | .coff => "Coff"
  | .coffImport => "CoffImport"
  | .coffBig => "CoffBig"
  | .pe32 => "Pe32"
  | .pe64 => "Pe64"
  | .xcoff32 => "Xcoff32"
  | .xcoff64 => "Xcoff64"
  | .thin32 => "MachO32"
  | .thin64 => "MachO64"
  | .fat32 => "MachOFat32"
  | .fat64 => "MachOFat64"

/-- Why bytes are not a readable Mach-O file. -/
inductive Malformed where
  | magicMissing
  | magicUnknown
  | msDos
  | anonymousObject
  | fileKind (kind : FileKind)
  | sliceKind (kind : FileKind)
  | fatTable
  | fatEmpty
  | fatSlice
  | header
  | commandTable
  | commandHeader
  | commandLength
  | commandBody
  | sectionCount
  deriving DecidableEq, Repr

def Malformed.message : Malformed → String
  | .magicMissing => "Could not read file magic"
  | .magicUnknown => "Unknown file magic"
  | .msDos => "Unknown MS-DOS file"
  | .anonymousObject => "Unknown anon object file"
  | .fileKind kind => "unsupported file kind " ++ kind.name
  | .sliceKind kind => "unsupported fat slice " ++ kind.name
  | .fatTable => "Invalid nfat_arch"
  | .fatEmpty => "fat file has no architectures"
  | .fatSlice => "Invalid fat arch offset or size"
  | .header => "Invalid Mach-O header size or alignment"
  | .commandTable => "Invalid Mach-O load command table size"
  | .commandHeader => "Invalid Mach-O load command header"
  | .commandLength => "Invalid Mach-O load command size"
  | .commandBody => "Invalid Mach-O command size"
  | .sectionCount => "Invalid Mach-O number of sections"

/-- What was being looked for in the debug information when it turned out to be broken. -/
inductive DebugStep where
  | unitRoot
  | unitChildren
  | variableType
  | nameAttribute
  | stringValue
  | typeAttribute
  | typeReference
  | encoding
  | pointeeType
  | pointee
  | structTree
  | structRoot
  | structChildren
  | arrayTree
  | arrayRoot
  | arrayChildren
  | enumTree
  | enumRoot
  | enumChildren
  | enumValue
  | attribute
  | memberLocation
  | memberExpression
  deriving DecidableEq, Repr

def DebugStep.name : DebugStep → String
  | .unitRoot => "navigating unit root"
  | .unitChildren => "iterating unit children"
  | .variableType => "reading variable type"
  | .nameAttribute => "reading DW_AT_name"
  | .stringValue => "resolving DWARF string"
  | .typeAttribute => "reading DW_AT_type"
  | .typeReference => "resolving type reference"
  | .encoding => "reading DW_AT_encoding"
  | .pointeeType => "reading pointee type"
  | .pointee => "resolving pointee"
  | .structTree => "building struct tree"
  | .structRoot => "navigating struct root"
  | .structChildren => "iterating struct children"
  | .arrayTree => "building array tree"
  | .arrayRoot => "navigating array root"
  | .arrayChildren => "iterating subranges"
  | .enumTree => "building enumeration tree"
  | .enumRoot => "navigating enumeration root"
  | .enumChildren => "iterating enumerators"
  | .enumValue => "reading DW_AT_const_value"
  | .attribute => "reading attribute"
  | .memberLocation => "reading DW_AT_data_member_location"
  | .memberExpression => "reading member location"

/-- How debug information can be broken. -/
inductive DebugFault where
  | unexpectedEnd
  | offsetOutOfBounds
  | badUnsigned
  | badSigned
  | notAString
  | unexpectedNull
  | noEntry
  | unknownAbbreviation
  | unknownForm
  | badImplicitConst
  | badAbbreviation
  | badUnitHeader
  | badLineTable
  | missingRoot
  deriving DecidableEq, Repr

def DebugFault.message : DebugFault → String
  | .unexpectedEnd => "Hit the end of input before it was expected"
  | .offsetOutOfBounds => "The given offset is out of bounds."
  | .badUnsigned => "An error parsing an unsigned LEB128 value"
  | .badSigned => "An error parsing a signed LEB128 value"
  | .notAString => "Expected an attribute value to be a string form."
  | .unexpectedNull => "Read a null entry before it was expected."
  | .noEntry => "Did not find an entry at the given offset."
  | .unknownAbbreviation => "Found a record with an unknown abbreviation code"
  | .unknownForm => "Found an unknown `DW_FORM_*` type"
  | .badImplicitConst => "DW_FORM_implicit_const used in an invalid context."
  | .badAbbreviation => "Found a malformed abbreviation"
  | .badUnitHeader => "Found a malformed unit header"
  | .badLineTable => "Found a malformed line number table"
  | .missingRoot => "Expected a unit entry"

/-- Why an inspection failed. -/
inductive Error where
  /-- Fewer bytes were left than the item needs. -/
  | truncated (item : Item) (offset needed available : Nat)
  /-- An index points outside its table. -/
  | outOfRange (table : Table) (index : UInt64)
  | unsupported (what : Unsupported)
  /-- A variable-length item did not end within its limit. -/
  | overflow (item : Item) (offset : Nat)
  | misuse (what : Misuse)
  | malformed (what : Malformed)
  | debug (step : DebugStep) (fault : DebugFault)
  | fileMissing
  | fileUnreadable (reason : String)
  deriving DecidableEq, Repr

namespace Error

def message : Error → String
  | truncated item offset needed available =>
    "Truncated read: " ++ item.name ++ " needs " ++ decimal needed ++ " bytes at offset "
      ++ hex offset ++ ", " ++ decimal available ++ " available"
  | outOfRange table index => table.name ++ " index " ++ decimal index.toNat ++ " out of range"
  | unsupported what => "Unsupported: " ++ what.message
  | overflow item offset => item.name ++ " overflow at offset " ++ hex offset
  | misuse what => "Invalid argument: " ++ what.message
  | malformed what => "Failed to parse Mach-O: " ++ what.message
  | debug step fault => "DWARF error while " ++ step.name ++ ": " ++ fault.message
  | fileMissing => "IO error: No such file or directory (os error 2)"
  | fileUnreadable reason => "IO error: " ++ reason

end Error

end MachInspect
