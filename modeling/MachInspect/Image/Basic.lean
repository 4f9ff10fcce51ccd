-- SUMMARY: The model of a Mach-O file: header, load commands, sections, relocations, symbols.
import MachInspect.Binary.ByteOrder
import MachInspect.Cpu.Arch

/-!
# Mach-O images

An `Image` owns everything that is inspected. Sections are numbered from one in load-command order;
symbols are numbered from zero in table order.
-/
namespace MachInspect

open Text

/-- Adds without wrapping: sums past the last address stop there. -/
def saturatingAdd (a b : UInt64) : UInt64 := UInt64.ofNat (min (a.toNat + b.toNat) (2 ^ 64 - 1))

/-- Moves an address by a signed distance, around the end of the address space if need be. -/
def displaced (address : UInt64) (distance : Int64) : UInt64 := address + distance.toUInt64

structure Header where
  magic : UInt32
  cpuType : UInt32
  cpuSubtype : UInt32
  fileType : UInt32
  commandCount : UInt32
  commandBytes : UInt32
  flags : UInt32
  deriving DecidableEq, Repr

/-- A relocation entry. `value` is an address in a scattered entry, a symbol index in an external
one, and a section number otherwise. -/
structure Reloc where
  /-- Offset of the patched bytes in the section. -/
  address : UInt32
  value : UInt32
  /-- What to do with the bytes; the meaning depends on the CPU. -/
  kind : UInt8
  /-- Binary logarithm of the number of patched bytes. -/
  length : UInt8
  pcRelative : Bool
  external : Bool
  scattered : Bool
  deriving DecidableEq, Repr

namespace Reloc

/-- Number of patched bytes: 1, 2, 4 or 8. -/
def width (r : Reloc) : Nat := 2 ^ (r.length.toNat % 4)

end Reloc

structure Section where
  /-- Number in load-command order, from one. -/
  index : Nat
  segmentName : String
  name : String
  addr : UInt64
  size : UInt64
  offset : UInt32
  align : UInt32
  relocOffset : UInt32
  relocCount : UInt32
  flags : UInt32
  /-- Bytes in the file; none for zero-fill sections. -/
  data : Bytes
  relocs : List Reloc
  deriving DecidableEq, Repr

namespace Section

def type (s : Section) : UInt32 := s.flags &&& 0xff

/-- Sections of these types have no bytes in the file. -/
def zeroFillTypes : List UInt32 := [0x1, 0xc, 0x12]

def isZeroFill (s : Section) : Bool := zeroFillTypes.contains s.type

/-- First address past the section. -/
def limit (s : Section) : UInt64 := saturatingAdd s.addr s.size

def contains (s : Section) (address : UInt64) : Bool := s.addr ≤ address && address < s.limit

/-- `__TEXT,__text`. -/
def label (s : Section) : String := s.segmentName ++ "," ++ s.name

/-- The `len` bytes at `address`, if the file holds them all. -/
def bytesAt? (s : Section) (address : UInt64) (len : Nat) : Option Bytes :=
  if s.addr ≤ address then slice? s.data (address.toNat - s.addr.toNat) len else none

/-- Address of the bytes that a relocation of this section patches. -/
def relocAddress (s : Section) (r : Reloc) : UInt64 := s.addr + r.address.toUInt64

end Section

/-- A symbol table entry. -/
structure Symbol where
  name : String
  /-- Debugger, private-external, type and external bits. -/
  kind : UInt8
  /-- Section number, zero for none. -/
  sect : UInt8
  desc : UInt16
  value : UInt64
  deriving DecidableEq, Repr

namespace Symbol

/-- Entries that only debuggers use. -/
def isStab (s : Symbol) : Bool := s.kind &&& 0xe0 ≠ 0

def isExternal (s : Symbol) : Bool := s.kind &&& 0x01 ≠ 0

def isPrivateExternal (s : Symbol) : Bool := s.kind &&& 0x10 ≠ 0

def type (s : Symbol) : UInt8 := s.kind &&& 0x0e

def undefinedType : UInt8 := 0x0

def absoluteType : UInt8 := 0x2

def indirectType : UInt8 := 0xa

def preboundType : UInt8 := 0xc

def sectionType : UInt8 := 0xe

/-- Stands for an address inside a section, and not for a debugger only. -/
def isSectionDefined (s : Symbol) : Bool := !s.isStab && s.type == sectionType

end Symbol

structure Segment where
  name : String
  vmAddr : UInt64
  vmSize : UInt64
  fileOffset : UInt64
  fileSize : UInt64
  maxProt : UInt32
  initProt : UInt32
  sectionCount : UInt32
  flags : UInt32
  /-- Numbers of the segment's sections. -/
  sections : List Nat
  deriving DecidableEq, Repr

structure SymbolTableRange where
  symbolOffset : UInt32
  symbolCount : UInt32
  stringOffset : UInt32
  stringBytes : UInt32
  deriving DecidableEq, Repr

structure Library where
  name : String
  timestamp : UInt32
  currentVersion : UInt32
  compatibilityVersion : UInt32
  deriving DecidableEq, Repr

/-- What a load command says. -/
inductive Directive where
  | segment (segment : Segment)
  | symbolTable (range : SymbolTableRange)
  /-- The eighteen numbers of a dynamic symbol table command, in order. -/
  | dynamicSymbols (numbers : List UInt32)
  | library (library : Library)
  | searchPath (path : String)
  | other
  deriving DecidableEq, Repr

structure LoadCommand where
  tag : UInt32
  size : UInt32
  directive : Directive
  deriving DecidableEq, Repr

structure Image where
  header : Header
  arch : Arch
  order : ByteOrder
  commands : List LoadCommand
  sections : List Section
  symbols : List Symbol
  deriving DecidableEq, Repr

namespace Image

/-- Numbers sections by their position. -/
def numberSections (sections : List Section) : List Section :=
  sections.mapIdx fun i s => { s with index := i + 1 }

/-- An image without load commands, from decoded parts. -/
def ofParts (cpuType cpuSubtype fileType flags : UInt32) (order : ByteOrder)
    (sections : List Section) (symbols : List Symbol) : Image :=
  let arch := Arch.ofCpuType cpuType
  { header :=
      { magic := if arch.is64Bit then 0xfeedfacf else 0xfeedface
        cpuType, cpuSubtype, fileType, flags
        commandCount := 0
        commandBytes := 0 }
    arch, order
    commands := []
    sections := numberSections sections
    symbols }

/-- Section by number, from one. -/
def sectionAt? (image : Image) (number : UInt32) : Option Section :=
  if number = 0 then none else image.sections[number.toNat - 1]?

def sectionNamed? (image : Image) (segment name : String) : Option Section :=
  image.sections.find? fun s => s.segmentName == segment && s.name == name

/-- Symbol by number, from zero. -/
def symbol? (image : Image) (index : UInt32) : Option Symbol := image.symbols[index.toNat]?

/-- The section that a symbol declares. -/
def home? (image : Image) (s : Symbol) : Option Section := image.sectionAt? s.sect.toUInt32

/-- Object files are read before linking. -/
def isObject (image : Image) : Bool := image.header.fileType == 1

def pointerSize (image : Image) : Nat := image.arch.pointerSize

/-- Libraries in the order that symbols count them, from one. -/
def importedLibraries (image : Image) : List String :=
  image.commands.filterMap fun c =>
    match c.directive with
    | .library l => if c.tag = 0xd then none else some l.name
    | _ => none

/-- `Object (AMD64)`. -/
def description (image : Image) : String :=
  let kind := match image.header.fileType.toNat with
    | 0x1 => "Object"
    | 0x2 => "Executable"
    | 0x6 => "Dynamic Library"
    | 0x7 => "Dynamic Linker"
    | 0x8 => "Bundle"
    | 0xa => "Debug Symbols"
    | 0xb => "Kernel Extension"
    | _ => "Mach-O"
  kind ++ " (" ++ image.arch.machineName ++ ")"

end Image

end MachInspect
