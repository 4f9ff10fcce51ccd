-- SUMMARY: The header and the load commands as a tree of labelled values.
import MachInspect.Image.Describe

/-!
# Outline of an image
-/
namespace MachInspect

open Text

/-- A labelled value with its parts. A value may have several lines. -/
inductive Outline where
  | node (label value : String) (children : List Outline)
  deriving Repr

namespace Outline

def leaf (label value : String) : Outline := node label value []

def branch (label : String) (children : List Outline) : Outline := node label "" children

def number (label : String) (value : UInt32) : Outline := leaf label (decimal value.toNat)

def ofHeader (h : Header) : Outline :=
  branch "Header"
    [leaf "magic" (Describe.magic h.magic),
     leaf "cputype" (Describe.cpuType h.cpuType),
     leaf "cpusubtype" (Describe.cpuSubtype h.cpuType h.cpuSubtype),
     leaf "filetype" (Describe.fileType h.fileType),
     number "ncmds" h.commandCount,
     number "sizeofcmds" h.commandBytes,
     leaf "flags" (Describe.fileFlags h.flags)]

def ofSection (s : Section) : Outline :=
  branch ("Section " ++ decimal s.index ++ " (" ++ s.label ++ ")")
    [leaf "sectname" s.name,
     leaf "segname" s.segmentName,
     leaf "addr" (addressText s.addr),
     leaf "size" (hex s.size.toNat),
     number "offset" s.offset,
     leaf "align" (decimal s.align.toNat ++ " (" ++ decimal (2 ^ min s.align.toNat 63) ++ ")"),
     number "reloff" s.relocOffset,
     number "nreloc" s.relocCount,
     leaf "flags" (Describe.sectionFlags s.flags)]

def ofSegment (image : Image) (s : Segment) : List Outline :=
  [leaf "segname" s.name,
   leaf "vmaddr" (addressText s.vmAddr),
   leaf "vmsize" (hex s.vmSize.toNat),
   leaf "fileoff" (decimal s.fileOffset.toNat),
   leaf "filesize" (decimal s.fileSize.toNat),
   leaf "maxprot" (Describe.protection s.maxProt),
   leaf "initprot" (Describe.protection s.initProt),
   number "nsects" s.sectionCount,
   leaf "flags" (Describe.segmentFlags s.flags)]
    ++ s.sections.filterMap fun n =>
      if n = 0 then none else (image.sections[n - 1]?).map ofSection

def dynamicSymbolLabels : List String :=
  ["ilocalsym", "nlocalsym", "iextdefsym", "nextdefsym", "iundefsym", "nundefsym", "tocoff",
   "ntoc", "modtaboff", "nmodtab", "extrefsymoff", "nextrefsyms", "indirectsymoff",
   "nindirectsyms", "extreloff", "nextrel", "locreloff", "nlocrel"]

def ofDirective (image : Image) : Directive → List Outline
  | .segment s => ofSegment image s
  | .symbolTable t =>
    [number "symoff" t.symbolOffset,
     number "nsyms" t.symbolCount,
     number "stroff" t.stringOffset,
     number "strsize" t.stringBytes]
  | .dynamicSymbols numbers => dynamicSymbolLabels.zipWith number numbers
  | .library l =>
    [leaf "name" l.name,
     number "timestamp" l.timestamp,
     leaf "current_version" (Describe.version l.currentVersion),
     leaf "compatibility_version" (Describe.version l.compatibilityVersion)]
  | .searchPath path => [leaf "path" path]
  | .other => []

def ofCommand (image : Image) (position : Nat) (c : LoadCommand) : Outline :=
  branch ("Load Command " ++ decimal position ++ " (" ++ Describe.loadCommandName c.tag ++ ")")
    (leaf "cmd" (Describe.loadCommand c.tag) :: number "cmdsize" c.size
      :: ofDirective image c.directive)

end Outline

/-- The header, then one node per load command. -/
def Image.outline (image : Image) : List Outline :=
  Outline.ofHeader image.header :: image.commands.mapIdx (Outline.ofCommand image)

end MachInspect
