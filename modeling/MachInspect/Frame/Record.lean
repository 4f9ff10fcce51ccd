-- SUMMARY: Call-frame records laid out field by field.
import MachInspect.Cpu.Registers
import MachInspect.Frame.Pointer
import MachInspect.Symbols.Index
import MachInspect.Text.Utf8

/-!
# Call-frame records

A record is a length, an identifier and a body. The body of a common record (CIE) says how the
frame records (FDE) that refer back to it are laid out. Every byte of a record belongs to one field.
A record that breaks off keeps the fields before the break.
-/
namespace MachInspect.Frame

open Text

structure Field where
  address : UInt64
  bytes : Bytes
  name : String
  value : String
  deriving DecidableEq, Repr

/-- What records are read from. -/
structure Source where
  index : SymbolIndex
  /-- All bytes of the section. -/
  data : Bytes
  /-- Address of the first byte. -/
  base : UInt64

namespace Source

def order (src : Source) : ByteOrder := src.index.image.order

def pointerSize (src : Source) : Nat := src.index.image.pointerSize

/-- Address of the byte at `offset`. -/
def addressAt (src : Source) (offset : Nat) : UInt64 := src.base + UInt64.ofNat offset

end Source

/-- A place in a record and the fields before it. -/
structure Cursor where
  pos : Nat
  /-- Where the record ends, as far as the section goes. -/
  limit : Nat
  fields : List Field
  deriving DecidableEq, Repr

/-- Reading that moves a cursor. The cursor stays where it is when reading fails. -/
abbrev Reader (α : Type) := ExceptT Error (StateM Cursor) α

namespace Reader

/-- The next `len` bytes. -/
def take (src : Source) (item : Item) (len : Nat) : Reader Bytes := do
  let c ← get
  if c.pos + len ≤ c.limit then
    match slice? src.data c.pos len with
    | some bytes =>
      set { c with pos := c.pos + len }
      return bytes
    | none => throw (.truncated item c.pos len (c.limit - c.pos))
  else throw (.truncated item c.pos len (c.limit - c.pos))

/-- Adds the field from `start` up to here. -/
def push (src : Source) (start : Nat) (name value : String) : Reader Unit :=
  modify fun c =>
    let bytes := (src.data.drop start).take (c.pos - start)
    { c with fields := c.fields ++ [⟨src.addressAt start, bytes, name, value⟩] }

def here : Reader Nat := do return (← get).pos

/-- The bytes of the record and everything before it. -/
def visible (src : Source) : Reader Bytes := do return src.data.take (← get).limit

def advance (len : Nat) : Reader Unit := modify fun c => { c with pos := c.pos + len }

def byte (src : Source) (item : Item) : Reader UInt8 := do
  return (← take src item 1).headD 0

/-- A result that does not depend on the cursor. -/
def ofExcept {α : Type} : Except Error α → Reader α
  | .ok a => pure a
  | .error e => throw e

/-- A variable-length number. -/
def uleb128 (src : Source) : Reader UInt64 := do
  let (value, length) ← ofExcept (Leb128.unsigned (← visible src) (← here))
  advance length
  return value

/-- A variable-length number as a field. -/
def ulebField (src : Source) (name : String) : Reader UInt64 := do
  let start ← here
  let value ← uleb128 src
  push src start name (decimal value.toNat)
  return value

/-- Everything up to `stop` as one field, as far as the record goes. -/
def remainder (src : Source) (stop : Nat) (name : String) : Reader Unit := do
  let start ← here
  modify fun c => { c with pos := max start (min stop c.limit) }
  let len := (← here) - start
  push src start name (decimal len ++ " bytes")

/-- An encoding byte as a field. -/
def encodingField (src : Source) (name : String) : Reader UInt8 := do
  let start ← here
  let encoding ← byte src .pointerEncoding
  push src start name (Encoding.text encoding)
  return encoding

/-- A pointer stored with `encoding`. -/
def pointer (src : Source) (encoding : UInt8) : Reader Pointer := do
  let start ← here
  let p ← ofExcept <|
    Pointer.read src.order src.pointerSize (← visible src) start encoding (src.addressAt start)
  advance p.length
  return p

/-- A pointer as a field. -/
def pointerField (src : Source) (encoding : UInt8) (name : String) : Reader Unit := do
  let start ← here
  let p ← pointer src encoding
  push src start name (p.text (fun a => src.index.addressName a true) encoding)

end Reader

-- ---------------------------------------------------------------------------
-- Augmentations
-- ---------------------------------------------------------------------------

/-- What a common record hands down to its frame records. -/
structure Layout where
  augmentation : String
  fdeEncoding : UInt8
  lsdaEncoding : UInt8
  deriving DecidableEq, Repr

/-- The letters after the `z` of an augmentation string, if it starts with one. -/
def augmentationLetters? (augmentation : String) : Option (List Char) :=
  match augmentation.toList with
  | 'z' :: letters => some letters
  | _ => none

/-- Fails if the letters have used more bytes than were declared. -/
def checkAugmentation (stop : Nat) : Reader Unit := do
  let pos ← Reader.here
  if stop < pos then throw (.overflow .augmentationData pos)

/-- The data of a letter that is not known: all that is left of the declared bytes. -/
def unknownAugmentation (src : Source) (stop : Nat) : Reader Unit := do
  checkAugmentation stop
  if (← Reader.here) < stop then
    Reader.remainder src stop "Augmentation Data (Unknown)"

/-- Checks the declared length and shows what is left over. -/
def finishAugmentation (src : Source) (stop : Nat) : Reader Unit := do
  checkAugmentation stop
  let c ← get
  if c.pos < stop then
    if c.limit < stop then
      throw (.truncated .augmentationData c.pos (stop - c.pos) (c.limit - c.pos))
    Reader.remainder src stop "Augmentation Data (Remains)"

/-- The data of each letter of a common record; an unknown letter ends the row. -/
def cieLetters (src : Source) (stop : Nat) : List Char → Layout → Reader Layout
  | [], layout => return layout
  | 'P' :: rest, layout => do
    let encoding ← Reader.encodingField src "Augmentation Data (Personality Encoding)"
    Reader.pointerField src encoding "Augmentation Data (Personality Pointer)"
    cieLetters src stop rest layout
  | 'R' :: rest, layout => do
    let encoding ← Reader.encodingField src "Augmentation Data (FDE Encoding)"
    cieLetters src stop rest { layout with fdeEncoding := encoding }
  | 'L' :: rest, layout => do
    let encoding ← Reader.encodingField src "Augmentation Data (LSDA Encoding)"
    cieLetters src stop rest { layout with lsdaEncoding := encoding }
  | _ :: _, layout => do
    unknownAugmentation src stop
    return layout

/-- The data of each letter of a frame record. -/
def fdeLetters (src : Source) (layout : Layout) (stop : Nat) : List Char → Reader Unit
  | [] => return ()
  | 'P' :: rest => fdeLetters src layout stop rest
  | 'R' :: rest => fdeLetters src layout stop rest
  | 'L' :: rest => do
    Reader.pointerField src layout.lsdaEncoding "Augmentation Data (LSDA Pointer)"
    fdeLetters src layout stop rest
  | _ :: _ => unknownAugmentation src stop

-- ---------------------------------------------------------------------------
-- Bodies
-- ---------------------------------------------------------------------------

/-- The augmentation string and its NUL. -/
def augmentationField (src : Source) : Reader String := do
  let c ← get
  let text := ((src.data.take c.limit).drop c.pos).takeWhile (· ≠ 0)
  if c.pos + text.length < c.limit then
    let augmentation := Utf8.lossy text
    Reader.advance (text.length + 1)
    Reader.push src c.pos "Augmentation String" augmentation
    return augmentation
  else throw (.truncated .augmentationString c.pos 1 (c.limit - c.pos))

/-- The body of a common record. -/
def cieBody (src : Source) : Reader Layout := do
  let start ← Reader.here
  let version ← Reader.byte src .cieVersion
  Reader.push src start "Version" (decimal version.toNat)
  let augmentation ← augmentationField src
  if augmentation = "eh" then
    let start ← Reader.here
    let bytes ← Reader.take src .ehData src.pointerSize
    Reader.push src start "EH Data" (hex (src.order.value bytes))
  discard (Reader.ulebField src "Code Alignment Factor")
  let start ← Reader.here
  let (factor, length) ← Reader.ofExcept (Leb128.signed (← Reader.visible src) start)
  Reader.advance length
  Reader.push src start "Data Alignment Factor" (signedDecimal factor.toInt)
  let start ← Reader.here
  let register ←
    if version < 3 then do pure (← Reader.byte src .returnRegister).toUInt64
    else Reader.uleb128 src
  Reader.push src start "Return Address Register" (src.index.image.arch.registerText register)
  let layout : Layout := ⟨augmentation, 0, omitted⟩
  let layout ← match augmentationLetters? augmentation with
    | none => pure layout
    | some letters => do
      let length ← Reader.ulebField src "Augmentation Data Length"
      let stop := (← Reader.here) + length.toNat
      let layout ← cieLetters src stop letters layout
      finishAugmentation src stop
      pure layout
  Reader.remainder src (← get).limit "Initial Instructions"
  return layout

/-- The body of a frame record. -/
def fdeBody (src : Source) (layout : Layout) : Reader Unit := do
  Reader.pointerField src layout.fdeEncoding "PC Begin"
  let start ← Reader.here
  let range ← Reader.pointer src (Encoding.base layout.fdeEncoding)
  Reader.push src start "PC Range" (decimal range.raw.toNat)
  match augmentationLetters? layout.augmentation with
  | none => pure ()
  | some letters =>
    let length ← Reader.ulebField src "Augmentation Data Length"
    let stop := (← Reader.here) + length.toNat
    fdeLetters src layout stop letters
    finishAugmentation src stop
  Reader.remainder src (← get).limit "Call Frame Instructions"

end MachInspect.Frame
