-- SUMMARY: Telling file kinds apart by their first bytes.
import MachInspect.Binary.ByteOrder
import MachInspect.Error

/-!
# Kinds of files

The first bytes of a file tell its kind. Two kinds need a longer look: what starts like a DOS
program may be a portable executable, and an anonymous object shows its class further on.
-/
namespace MachInspect.Image

/-- The bytes of a DOS header and of the headers it may lead to. -/
def dosHeaderSize : Nat := 64

def peHeaderSize : Nat := 120

/-- Portable executables of both widths. The DOS header says at its end where the other headers
start; their signature comes first, and a mark for the width 24 bytes later. -/
def executableKind? (data : Bytes) : Option FileKind := do
  let dos ← slice? data 0 dosHeaderSize
  let headers ← slice? data (ByteOrder.little.value (dos.drop 60)) peHeaderSize
  if headers.take 4 = [0x50, 0x45, 0, 0] then
    match (headers.drop 24).take 2 with
    | [0x0b, 0x01] => some .pe32
    | [0x0b, 0x02] => some .pe64
    | _ => none
  else none

/-- The class of anonymous objects with many sections. -/
def bigObjectClass : Bytes :=
  [0xc7, 0xa1, 0xba, 0xd1, 0xee, 0xba, 0xa9, 0x4b, 0xaf, 0x20, 0xfa, 0xf6, 0x6a, 0xa4, 0xdc, 0xb8]

/-- Whether a header of 32 bytes has that class. -/
def isBigObject (data : Bytes) : Bool := 32 ≤ data.length && (data.drop 12).take 16 == bigObjectClass

/-- What kind of file starts with these bytes. -/
def fileKind (data : Bytes) : Except Malformed FileKind :=
  if data.length < 16 then .error .magicMissing
  else
    match data.take 8 with
    | [0x7f, 0x45, 0x4c, 0x46, 1, _, _, _] => .ok .elf32
    | [0x7f, 0x45, 0x4c, 0x46, 2, _, _, _] => .ok .elf64
    | [0x21, 0x3c, 0x61, 0x72, 0x63, 0x68, 0x3e, 0x0a] => .ok .archive
    | [0x21, 0x3c, 0x74, 0x68, 0x69, 0x6e, 0x3e, 0x0a] => .ok .archive
    | [0x64, 0x79, 0x6c, 0x64, 0x5f, 0x76, 0x31, 0x20] => .ok .dyldCache
    | 0xfe :: 0xed :: 0xfa :: 0xce :: _ => .ok .thin32
    | 0xce :: 0xfa :: 0xed :: 0xfe :: _ => .ok .thin32
    | 0xfe :: 0xed :: 0xfa :: 0xcf :: _ => .ok .thin64
    | 0xcf :: 0xfa :: 0xed :: 0xfe :: _ => .ok .thin64
    | 0xca :: 0xfe :: 0xba :: 0xbe :: _ => .ok .fat32
    | 0xca :: 0xfe :: 0xba :: 0xbf :: _ => .ok .fat64
    | 0x4d :: 0x5a :: _ =>
      match executableKind? data with
      | some kind => .ok kind
      | none => .error .msDos
    | 0x4c :: 0x01 :: _ | 0xc4 :: 0x01 :: _ | 0x64 :: 0x86 :: _ | 0x64 :: 0xaa :: _ => .ok .coff
    | 0x41 :: 0xa6 :: _ | 0xf0 :: 0x01 :: _ | 0xf1 :: 0x01 :: _ | 0xf2 :: 0x01 :: _ => .ok .coff
    | 0 :: 0 :: 0xff :: 0xff :: 0 :: 0 :: _ => .ok .coffImport
    | 0 :: 0 :: 0xff :: 0xff :: 2 :: 0 :: _ =>
      if isBigObject data then .ok .coffBig else .error .anonymousObject
    | 0x01 :: 0xdf :: _ => .ok .xcoff32
    | 0x01 :: 0xf7 :: _ => .ok .xcoff64
    | _ => .error .magicUnknown

end MachInspect.Image
