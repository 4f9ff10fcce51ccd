-- SUMMARY: Call-frame records as they are stored, and the listing that belongs to them.
import MachInspect.Frame.Section
import MachInspect.Proofs.Binary.Numbers

/-!
# Stored call-frame records

The documented layout of a call-frame section, from the writer's side. A record is given by the
numbers and pointers in it (`StoredCie`, `StoredFde`) and laid out as a list of pieces, one for each
field. The pieces say both which bytes are stored and how the field is shown. Values that do not fit
their encoding cannot be built. Formats, targets and texts of pointers are the documented ones, by
the two halves of an encoding; that the reader has the same ones is proved of it.
-/
namespace MachInspect.Frame

open Text

/-! ## Numbers -/

/-- The format of the stored number, by the low four bits of the encoding, where pointers have
`pointerSize` bytes. -/
def formats (pointerSize : Nat) : List (UInt8 × Encoding.Format) :=
  [(0x00, .word pointerSize false), (0x01, .uleb128), (0x02, .word 2 false), (0x03, .word 4 false),
    (0x04, .word 8 false), (0x08, .word pointerSize true), (0x09, .sleb128), (0x0a, .word 2 true),
    (0x0b, .word 4 true), (0x0c, .word 8 true)]

/-- The numbers that a format can store. -/
inductive Encoding.Format.Number : Encoding.Format → Type where
  | unsigned {width : Nat} (value : Nat) (value_lt : value < 256 ^ width) :
      Number (.word width false)
  | signed {width : Nat} (value : Int) (le_value : -(256 ^ width) ≤ value * 2)
      (value_lt : value * 2 < 256 ^ width) : Number (.word width true)
  | uleb128 (number : Leb128.Unsigned) : Number .uleb128
  | sleb128 (number : Leb128.Signed) : Number .sleb128

namespace Encoding.Format.Number

def bytes (order : ByteOrder) : {format : Encoding.Format} → format.Number → Bytes
  | .word width _, .unsigned value _ => order.encode width value
  | .word width _, .signed value _ _ => order.encode width (value % 256 ^ width).toNat
  | _, .uleb128 number => number.bytes
  | _, .sleb128 number => number.bytes

/-- The number that is stored. -/
def value : {format : Encoding.Format} → format.Number → Int
  | _, .unsigned value _ => value
  | _, .signed value _ _ => value
  | _, .uleb128 number => number.value
  | _, .sleb128 number => number.value

/-- The number as 64 bits. -/
def raw {format : Encoding.Format} (number : format.Number) : UInt64 := UInt64.ofInt number.value

end Encoding.Format.Number

/-! ## Pointers -/

/-- A pointer that is stored with `encoding`. There is none if the encoding is neither supported
nor the one for pointers that are left out. -/
inductive StoredPointer (pointerSize : Nat) (encoding : UInt8) where
  | leftOut (encoding_eq : encoding = omitted)
  | stored {format : Encoding.Format}
      (format_mem : (encoding &&& 0x0f, format) ∈ formats pointerSize) (number : format.Number)

namespace StoredPointer

variable {pointerSize : Nat} {encoding : UInt8}

def bytes (order : ByteOrder) : StoredPointer pointerSize encoding → Bytes
  | leftOut _ => []
  | stored _ number => number.bytes order

def raw : StoredPointer pointerSize encoding → UInt64
  | leftOut _ => 0
  | stored _ number => number.raw

/-- What the pointer leads to if it stands at address `field`, by the high four bits of its
encoding: an absolute pointer to its number, a relative one as far from `field` as its number says,
counted in 64 bits, and any other to no address. -/
def address? (field : UInt64) : StoredPointer pointerSize encoding → Option UInt64
  | leftOut _ => none
  | stored _ number =>
    if encoding &&& 0xf0 = 0x00 then some (UInt64.ofInt number.value)
    else if encoding &&& 0xf0 = 0x10 then some (UInt64.ofInt (field.toNat + number.value))
    else none

/-- How the pointer is shown if it stands at address `field`, with names for addresses. A relative
pointer is shown with its distance, and one that leads to no address as its number. -/
def text (name : UInt64 → String) (field : UInt64) : StoredPointer pointerSize encoding → String
  | leftOut _ => "omitted"
  | stored _ number =>
    if encoding &&& 0xf0 = 0x00 then name (UInt64.ofInt number.value)
    else if encoding &&& 0xf0 = 0x10 then
      "pc" ++ offsetText number.raw.toInt64.toInt ++ " = "
        ++ name (UInt64.ofInt (field.toNat + number.value))
    else hex number.raw.toNat ++ (if encoding &&& 0x80 ≠ 0 then " (indirect)" else "")

def pointer (order : ByteOrder) (field : UInt64) (p : StoredPointer pointerSize encoding) :
    Pointer :=
  ⟨p.raw, (p.bytes order).length, p.address? field⟩

end StoredPointer

/-! ## Pieces -/

/-- The bytes of one field, and how they are shown at an address. -/
structure Piece where
  name : String
  bytes : Bytes
  text : UInt64 → String

namespace Piece

/-- A piece that is shown in the same way everywhere. -/
def plain (name : String) (bytes : Bytes) (text : String) : Piece := ⟨name, bytes, fun _ => text⟩

def field (p : Piece) (address : UInt64) : Field := ⟨address, p.bytes, p.name, p.text address⟩

/-- All bytes of some pieces. -/
def stored (pieces : List Piece) : Bytes := pieces.flatMap Piece.bytes

theorem stored_cons (p : Piece) (pieces : List Piece) :
    stored (p :: pieces) = p.bytes ++ stored pieces :=
  List.flatMap_cons

theorem stored_singleton (p : Piece) : stored [p] = p.bytes := List.flatMap_singleton _ _

theorem stored_append (pieces more : List Piece) :
    stored (pieces ++ more) = stored pieces ++ stored more :=
  List.flatMap_append

/-- The fields of pieces that follow each other from `address` on. -/
def fields : UInt64 → List Piece → List Field
  | _, [] => []
  | address, p :: rest =>
    p.field address :: fields (address + UInt64.ofNat p.bytes.length) rest

def encoding (name : String) (encoding : UInt8) : Piece :=
  plain name [encoding] (Encoding.text encoding)

def uleb128 (name : String) (number : Leb128.Unsigned) : Piece :=
  plain name number.bytes (decimal number.value)

/-- All the bytes up to the end of a record. -/
def instructions (name : String) (bytes : Bytes) : Piece :=
  plain name bytes (decimal bytes.length ++ " bytes")

/-- A pointer, with the symbols at the address it leads to. -/
def pointer (index : SymbolIndex) {encoding : UInt8} (name : String)
    (p : StoredPointer index.image.pointerSize encoding) : Piece where
  name
  bytes := p.bytes index.image.order
  text := p.text fun a => index.addressName a true

/-- A length that counts `count` bytes: four bytes, or a mark and eight bytes. -/
def length (order : ByteOrder) (extended : Bool) (count : Nat) : List Piece :=
  if extended then
    [plain "Length" (order.encode 4 extendedMark) "extended",
      plain "Extended Length" (order.encode 8 count) (decimal count)]
  else [plain "Length" (order.encode 4 count) (decimal count)]

end Piece

/-! ## Common records -/

variable {index : SymbolIndex}

/-- The versions of common records, which differ in how the return address register is stored. -/
inductive Revision where
  | one (register : UInt8)
  | three (register : Leb128.Unsigned)

namespace Revision

def version : Revision → UInt8
  | one _ => 1
  | three _ => 3

def registerBytes : Revision → Bytes
  | one register => [register]
  | three register => register.bytes

def register : Revision → UInt64
  | one register => register.toUInt64
  | three register => UInt64.ofNat register.value

end Revision

/-- A letter of an augmentation string with the data that stands for it in the common record. -/
inductive Letter (index : SymbolIndex) where
  | personality (encoding : UInt8) (pointer : StoredPointer index.image.pointerSize encoding)
  | lsda (encoding : UInt8)
  | frame (encoding : UInt8)

namespace Letter

def char : Letter index → Char
  | personality _ _ => 'P'
  | lsda _ => 'L'
  | frame _ => 'R'

def pieces : Letter index → List Piece
  | personality encoding p =>
    [.encoding "Augmentation Data (Personality Encoding)" encoding,
      .pointer index "Augmentation Data (Personality Pointer)" p]
  | lsda encoding => [.encoding "Augmentation Data (LSDA Encoding)" encoding]
  | frame encoding => [.encoding "Augmentation Data (FDE Encoding)" encoding]

/-- What the letter says about the layout of frame records. -/
def handDown (layout : Layout) : Letter index → Layout
  | personality _ _ => layout
  | lsda encoding => { layout with lsdaEncoding := encoding }
  | frame encoding => { layout with fdeEncoding := encoding }

/-- The data of the letter in a frame record, given the piece for the language-specific data. -/
def framePieces (lsda : Piece) : Letter index → List Piece
  | .lsda _ => [lsda]
  | _ => []

end Letter

/-- An augmentation string that starts with a `z`, and its data. -/
structure Augmentation (index : SymbolIndex) where
  letters : List (Letter index)
  length : Leb128.Unsigned
  length_exact : length.value = (Piece.stored (letters.flatMap Letter.pieces)).length

structure StoredCie (index : SymbolIndex) where
  extended : Bool
  revision : Revision
  augmentation? : Option (Augmentation index)
  codeFactor : Leb128.Unsigned
  dataFactor : Leb128.Signed
  instructions : Bytes

namespace StoredCie

def letters (c : StoredCie index) : List (Letter index) :=
  match c.augmentation? with
  | some a => a.letters
  | none => []

def augmentation (c : StoredCie index) : List Char :=
  match c.augmentation? with
  | some a => 'z' :: a.letters.map Letter.char
  | none => []

/-- How frame records of the common record are laid out. -/
def layout (c : StoredCie index) : Layout :=
  c.letters.foldl Letter.handDown ⟨String.ofList c.augmentation, 0, omitted⟩

def augmentationPieces (c : StoredCie index) : List Piece :=
  match c.augmentation? with
  | some a => .uleb128 "Augmentation Data Length" a.length :: a.letters.flatMap Letter.pieces
  | none => []

/-- Everything after the identifier. -/
def body (c : StoredCie index) : List Piece :=
  [.plain "Version" [c.revision.version] (decimal c.revision.version.toNat),
    .plain "Augmentation String" (c.augmentation.map (fun ch => UInt8.ofNat ch.toNat) ++ [0])
      (String.ofList c.augmentation),
    .uleb128 "Code Alignment Factor" c.codeFactor,
    .plain "Data Alignment Factor" c.dataFactor.bytes (signedDecimal c.dataFactor.value),
    .plain "Return Address Register" c.revision.registerBytes
      (index.image.arch.registerText c.revision.register)]
  ++ (c.augmentationPieces ++ [.instructions "Initial Instructions" c.instructions])

end StoredCie

/-! ## Frame records -/

/-- A frame record, laid out as the common record `cie` says. -/
structure StoredFde (index : SymbolIndex) where
  extended : Bool
  cie : StoredCie index
  /-- The distance from the identifier back to the common record. -/
  back : UInt32
  start : StoredPointer index.image.pointerSize cie.layout.fdeEncoding
  range : StoredPointer index.image.pointerSize (Encoding.base cie.layout.fdeEncoding)
  lsda : StoredPointer index.image.pointerSize cie.layout.lsdaEncoding
  length : Leb128.Unsigned
  length_exact : length.value = (Piece.stored (cie.letters.flatMap
    (Letter.framePieces (.pointer index "Augmentation Data (LSDA Pointer)" lsda)))).length
  instructions : Bytes

namespace StoredFde

def augmentationPieces (f : StoredFde index) : List Piece :=
  match f.cie.augmentation? with
  | some a =>
    .uleb128 "Augmentation Data Length" f.length :: a.letters.flatMap
      (Letter.framePieces (.pointer index "Augmentation Data (LSDA Pointer)" f.lsda))
  | none => []

/-- Everything after the identifier. -/
def body (f : StoredFde index) : List Piece :=
  [.pointer index "PC Begin" f.start,
    .plain "PC Range" (f.range.bytes index.image.order)
      (decimal f.range.raw.toNat)]
  ++ (f.augmentationPieces ++ [.instructions "Call Frame Instructions" f.instructions])

end StoredFde

/-! ## Records -/

inductive Entry (index : SymbolIndex) where
  | cie (c : StoredCie index)
  | fde (f : StoredFde index)

namespace Entry

def extended : Entry index → Bool
  | cie c => c.extended
  | fde f => f.extended

def body : Entry index → List Piece
  | cie c => c.body
  | fde f => f.body

/-- The identifier: zero, or the distance back to the common record. -/
def id : Entry index → UInt32
  | cie _ => 0
  | fde f => f.back

def idPiece : Entry index → Piece
  | cie _ => .plain "CIE ID" (index.image.order.encode 4 0) "0"
  | fde f =>
    { name := "CIE Pointer"
      bytes := index.image.order.encode 4 f.back.toNat
      text := fun address =>
        "-" ++ hex f.back.toNat ++ " = " ++ hex (address - f.back.toUInt64).toNat }

/-- The bytes that the length counts. -/
def count (e : Entry index) : Nat := 4 + (Piece.stored e.body).length

def lengthPieces (e : Entry index) : List Piece :=
  Piece.length index.image.order e.extended e.count

def pieces (e : Entry index) : List Piece := e.lengthPieces ++ e.idPiece :: e.body

def bytes (e : Entry index) : Bytes := Piece.stored e.pieces

/-- Where the identifier of a record at `offset` stands. -/
def idOffset (e : Entry index) (offset : Nat) : Nat :=
  offset + (Piece.stored e.lengthPieces).length

/-- The record as it is listed. -/
def record (e : Entry index) (kind : RecordKind) (base : UInt64) (number offset : Nat) :
    Record where
  kind
  number
  offset
  address := base + UInt64.ofNat offset
  fields := Piece.fields (base + UInt64.ofNat offset) e.pieces
  error := none

end Entry

/-! ## Sections -/

/-- The bytes of records that follow each other. -/
def serialize (entries : List (Entry index)) : Bytes := entries.flatMap Entry.bytes

theorem serialize_cons (e : Entry index) (entries : List (Entry index)) :
    serialize (e :: entries) = e.bytes ++ serialize entries :=
  List.flatMap_cons

theorem serialize_append (entries more : List (Entry index)) :
    serialize (entries ++ more) = serialize entries ++ serialize more :=
  List.flatMap_append

/-- Records with their offsets. -/
def placed : (offset : Nat) → List (Entry index) → List (Nat × Entry index)
  | _, [] => []
  | offset, e :: rest => (offset, e) :: placed (offset + e.bytes.length) rest

def placedCies (entries : List (Nat × Entry index)) : List (Nat × StoredCie index) :=
  entries.filterMap fun
    | (offset, .cie c) => some (offset, c)
    | (_, .fde _) => none

/-- The frame records that refer back to `target`. -/
def placedFdes (entries : List (Nat × Entry index)) (target : Nat) :
    List (Nat × StoredFde index) :=
  entries.filterMap fun
    | (_, .cie _) => none
    | (offset, .fde f) =>
      if target + f.back.toNat = (Entry.fde f).idOffset offset then some (offset, f) else none

/-- One group for each common record, with the frame records that refer to it. -/
def groupsOf (base : UInt64) (entries : List (Nat × Entry index)) : List Group :=
  (placedCies entries).zipIdx.map fun ((offset, c), number) =>
    { number
      cie := (Entry.cie c).record .cie base number offset
      fdes := (placedFdes entries offset).zipIdx.map fun ((offset, f), number) =>
        (Entry.fde f).record .fde base number offset }

/-- Every length fits its field and keeps records aligned, and every frame record refers back to an
earlier common record, the one it was laid out for. -/
structure WellFormed (entries : List (Entry index)) : Prop where
  fits : ∀ e ∈ entries, e.extended = false → e.count < extendedMark
  aligned : ∀ e ∈ entries, index.image.pointerSize ∣ e.bytes.length
  refers : ∀ earlier f later, entries = earlier ++ .fde f :: later →
    ∃ target, (target, .cie f.cie) ∈ placed 0 earlier ∧
      target + f.back.toNat = (Entry.fde f).idOffset (serialize earlier).length

end MachInspect.Frame
