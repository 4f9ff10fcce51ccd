-- SUMMARY: Walking the call-frame records of a section and grouping them.
import MachInspect.Frame.Record

/-!
# Call-frame sections

The walk goes from record to record by their declared lengths, rounded up to the pointer size, and
ends at a zero length or at the end of the section. Each common record opens a group, and frame
records join the group of the common record they refer back to. A record that cannot be decoded, and
one that refers to no usable common record, leaves a warning.
-/
namespace MachInspect.Frame

open Text

inductive RecordKind where
  | cie
  | fde
  deriving DecidableEq, Repr

structure Record where
  kind : RecordKind
  /-- Position among the common records, or among the frame records of the group. -/
  number : Nat
  /-- Where the length field stands in the section. -/
  offset : Nat
  address : UInt64
  fields : List Field
  /-- Why decoding stopped early. -/
  error : Option Error
  deriving DecidableEq, Repr

/-- `CIE 0`, `FDE 3`. -/
def Record.title (r : Record) : String :=
  match r.kind with
  | .cie => "CIE " ++ decimal r.number
  | .fde => "FDE " ++ decimal r.number

/-- A common record with the frame records that refer to it. -/
structure Group where
  number : Nat
  cie : Record
  fdes : List Record
  deriving DecidableEq, Repr

/-- `CFI 0`. -/
def Group.title (g : Group) : String := "CFI " ++ decimal g.number

/-- The records of a section. -/
structure Listing where
  title : String
  groups : List Group
  warnings : List String
  deriving DecidableEq, Repr

/-- All records in section order. -/
def Listing.records (l : Listing) : List Record :=
  (l.groups.flatMap fun g => g.cie :: g.fdes).mergeSort fun a b => a.offset ≤ b.offset

-- ---------------------------------------------------------------------------
-- Record heads
-- ---------------------------------------------------------------------------

/-- What stands at the start of a record. -/
inductive Head where
  /-- The walk ends here. -/
  | stop (warning : Option String)
  /-- A record without an identifier. -/
  | skip (warning : String) (next : Nat)
  /-- A record whose body is still to be read. `declared` is where it ends by its own account. -/
  | body (cursor : Cursor) (id : UInt32) (idStart declared next : Nat)

/-- The length that stands for an extended length. -/
def extendedMark : Nat := 0xffffffff

/-- The length of a record: four bytes, or a mark and eight bytes. -/
def lengthFields (src : Source) : Reader Nat := do
  let start ← Reader.here
  let length := src.order.value (← Reader.take src .recordLength 4)
  if length = extendedMark then
    Reader.push src start "Length" "extended"
    let start ← Reader.here
    let length := src.order.value (← Reader.take src .extendedLength 8)
    Reader.push src start "Extended Length" (decimal length)
    return length
  else
    Reader.push src start "Length" (decimal length)
    return length

/-- Says which length field is cut off. -/
def lengthWarning : Error → String
  | .truncated .extendedLength _ _ _ => "truncated extended length at "
  | _ => "truncated record header at "

/-- Rounds an offset up to a multiple of the pointer size. -/
def aligned (size offset : Nat) : Nat := (offset + size - 1) / size * size

/-- Reads length and identifier of the record at `offset`. -/
def head (src : Source) (offset : Nat) : Head :=
  let place := hex (src.addressAt offset).toNat
  let cursor : Cursor := ⟨offset, src.data.length, []⟩
  match (lengthFields src).run.run cursor with
  | (.error e, _) => .stop (some (lengthWarning e ++ place))
  | (.ok length, c) =>
    let declared := c.pos + length
    if length = 0 then .stop none
    else if 2 ^ 64 ≤ declared then
      .stop (some ("record at " ++ place ++ ": length " ++ decimal length
        ++ " overflows the section"))
    else
      let next := aligned src.pointerSize declared
      let idStart := c.pos
      let c := { c with limit := min declared src.data.length }
      match (Reader.take src .cieId 4).run.run c with
      | (.error _, _) => .skip ("record at " ++ place ++ ": truncated CIE id") next
      | (.ok bytes, c) => .body c (UInt32.ofNat (src.order.value bytes)) idStart declared next

-- ---------------------------------------------------------------------------
-- The walk
-- ---------------------------------------------------------------------------

/-- A common record that frame records can refer to. -/
structure Known where
  offset : Nat
  group : Nat
  /-- How its frame records are laid out; nothing if it could not be decoded. -/
  layout : Option Layout
  deriving DecidableEq, Repr

/-- The records met so far. -/
structure Walk where
  groups : List Group := []
  warnings : List String := []
  known : List Known := []
  deriving DecidableEq, Repr

def Walk.warn (w : Walk) (warning : String) : Walk :=
  { w with warnings := w.warnings ++ [warning] }

/-- Warns of a record that could not be decoded in full. -/
def Walk.warnRecord (w : Walk) (r : Record) : Walk :=
  match r.error with
  | some e => w.warn (r.title ++ " at " ++ hex r.address.toNat ++ ": " ++ e.message)
  | none => w

/-- A body that was read to its end is still broken if the record goes on past the section. -/
def checkExtent {α : Type} (src : Source) (declared : Nat) (result : Except Error α) :
    Except Error α :=
  match result with
  | .ok a =>
    if src.data.length < declared then
      .error (.truncated .callFrameRecord src.data.length (declared - src.data.length) 0)
    else .ok a
  | .error e => .error e

def failure? {α : Type} : Except Error α → Option Error
  | .ok _ => none
  | .error e => some e

/-- Reads the common record at `offset`, whose identifier has been read. -/
def Walk.addCie (src : Source) (w : Walk) (offset : Nat) (c : Cursor) (idStart declared : Nat) :
    Walk :=
  let group := w.groups.length
  let read : Reader Layout := do
    Reader.push src idStart "CIE ID" "0"
    cieBody src
  let (result, c) := read.run.run c
  let result := checkExtent src declared result
  let cie : Record :=
    ⟨.cie, group, offset, src.addressAt offset, c.fields, failure? result⟩
  let w : Walk :=
    { w with
      groups := w.groups ++ [⟨group, cie, []⟩]
      known := w.known ++ [⟨offset, group, result.toOption⟩] }
  w.warnRecord cie

/-- Adds a frame record to a group. -/
def addFde (groups : List Group) (group : Nat) (fde : Record) : List Group :=
  groups.modify group fun g => { g with fdes := g.fdes ++ [fde] }

/-- The common record that a frame record refers to: `id` bytes before its identifier. -/
def Walk.referred? (w : Walk) (idStart : Nat) (id : UInt32) : Option Known :=
  if id.toNat ≤ idStart then w.known.find? fun k => k.offset == idStart - id.toNat else none

/-- Reads the frame record at `offset`, whose identifier has been read. -/
def Walk.addFdeAt (src : Source) (w : Walk) (offset : Nat) (c : Cursor) (id : UInt32)
    (idStart declared : Nat) : Walk :=
  let place := hex (src.addressAt offset).toNat
  let target := hex (src.addressAt idStart - id.toUInt64).toNat
  let refuse (reason : String) :=
    w.warn ("FDE at " ++ place ++ " refers to " ++ reason ++ " CIE at " ++ target)
  match w.referred? idStart id with
  | none => refuse "no"
  | some known =>
    match known.layout with
    | none => refuse "an undecodable"
    | some layout =>
      let read : Reader Unit := do
        Reader.push src idStart "CIE Pointer" ("-" ++ hex id.toNat ++ " = " ++ target)
        fdeBody src layout
      let (result, c) := read.run.run c
      let number := match w.groups[known.group]? with
        | some g => g.fdes.length
        | none => 0
      let fde : Record :=
        ⟨.fde, number, offset, src.addressAt offset, c.fields,
          failure? (checkExtent src declared result)⟩
      let w : Walk := { w with groups := addFde w.groups known.group fde }
      w.warnRecord fde

/-- Reads the record at `offset`; also gives where the next one starts. -/
def Walk.step (src : Source) (w : Walk) (offset : Nat) : Walk × Option Nat :=
  match head src offset with
  | .stop none => (w, none)
  | .stop (some warning) => (w.warn warning, none)
  | .skip warning next => (w.warn warning, some next)
  | .body c id idStart declared next =>
    if id = 0 then (w.addCie src offset c idStart declared, some next)
    else (w.addFdeAt src offset c id idStart declared, some next)

/-- Walks on from `offset`. Records are never empty, so each step moves forward. -/
def Walk.run (src : Source) (w : Walk) (offset : Nat) : Walk :=
  if offset < src.data.length then
    match w.step src offset with
    | (w, none) => w
    | (w, some next) => if offset < next then w.run src next else w
  else w
termination_by src.data.length - offset

/-- The call-frame records of a section. -/
def Listing.of (index : SymbolIndex) (home : Section) : Listing :=
  let w := Walk.run ⟨index, home.data, home.addr⟩ {} 0
  ⟨home.label, w.groups, w.warnings⟩

end MachInspect.Frame
