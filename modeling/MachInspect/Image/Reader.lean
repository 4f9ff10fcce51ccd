-- SUMMARY: Reading an image from the bytes of a thin or fat Mach-O file.
import MachInspect.Image.Basic
import MachInspect.Image.Kind
import MachInspect.Text.Utf8

/-!
# Reading images

The header and the load commands have to be sound. Section contents, relocation tables, symbol
tables and names that lie outside the file are left empty instead.
-/
namespace MachInspect.Image

open Text

/-- The unsigned number in the `width` bytes at `offset`. -/
def number (order : ByteOrder) (data : Bytes) (offset width : Nat) : Nat :=
  order.value ((data.drop offset).take width)

def word32 (order : ByteOrder) (data : Bytes) (offset : Nat) : UInt32 :=
  UInt32.ofNat (number order data offset 4)

/-- The number in the `width` bytes at `offset`, as an address or size. -/
def address (order : ByteOrder) (data : Bytes) (offset width : Nat) : UInt64 :=
  UInt64.ofNat (number order data offset width)

-- ---------------------------------------------------------------------------
-- Relocations and symbols
-- ---------------------------------------------------------------------------

/-- Cuts the first `count` entries of `size` bytes. -/
def entries (size : Nat) : Nat → Bytes → List Bytes
  | 0, _ => []
  | count + 1, data => data.take size :: entries size count (data.drop size)

/-- A table of `count` entries of `size` bytes at `offset`, if all of it lies in the file. -/
def table? (data : Bytes) (offset count size : Nat) : Option (List Bytes) :=
  if count = 0 then some []
  else (slice? data offset (count * size)).map (entries size count)

/-- A relocation entry of eight bytes. The layout of its second word depends on the byte order. -/
def readReloc (order : ByteOrder) (cpuType : UInt32) (entry : Bytes) : Reloc :=
  let first := number order entry 0 4
  let second := number order entry 4 4
  if cpuType ≠ 0x01000007 ∧ first.testBit 31 then
    { address := UInt32.ofNat (first % 0x1000000)
      value := UInt32.ofNat second
      kind := UInt8.ofNat (first / 0x1000000 % 0x10)
      length := UInt8.ofNat (first / 0x10000000 % 4)
      pcRelative := first.testBit 30
      external := false
      scattered := true }
  else
    match order with
    | .little =>
      { address := UInt32.ofNat first
        value := UInt32.ofNat (second % 0x1000000)
        kind := UInt8.ofNat (second / 0x10000000)
        length := UInt8.ofNat (second / 0x2000000 % 4)
        pcRelative := second.testBit 24
        external := second.testBit 27
        scattered := false }
    | .big =>
      { address := UInt32.ofNat first
        value := UInt32.ofNat (second / 0x100)
        kind := UInt8.ofNat (second % 0x10)
        length := UInt8.ofNat (second / 0x20 % 4)
        pcRelative := second.testBit 7
        external := second.testBit 4
        scattered := false }

/-- The bytes before the first NUL; empty if there is no NUL. -/
def terminatedName (data : Bytes) : String :=
  if data.contains 0 then Utf8.untilNul data else ""

/-- Symbol entries are 12 bytes in 32-bit files and 16 in 64-bit files. -/
def symbolSize (wide : Bool) : Nat := if wide then 16 else 12

def readSymbol (order : ByteOrder) (wide : Bool) (strings : Bytes) (entry : Bytes) : Symbol where
  name := terminatedName (strings.drop (number order entry 0 4))
  kind := UInt8.ofNat (number order entry 4 1)
  sect := UInt8.ofNat (number order entry 5 1)
  desc := UInt16.ofNat (number order entry 6 2)
  value := address order entry 8 (if wide then 8 else 4)

/-- The symbols of a table. If the strings go on past the end of the file, no symbol has a name. -/
def readSymbols (order : ByteOrder) (wide : Bool) (file : Bytes) (range : SymbolTableRange) :
    List Symbol :=
  let strings := (slice? file range.stringOffset.toNat range.stringBytes.toNat).getD []
  match table? file range.symbolOffset.toNat range.symbolCount.toNat (symbolSize wide) with
  | some table => table.map (readSymbol order wide strings)
  | none => []

-- ---------------------------------------------------------------------------
-- Load commands
-- ---------------------------------------------------------------------------

/-- What every part of an image is read from. -/
structure Source where
  file : Bytes
  order : ByteOrder
  cpuType : UInt32
  /-- A 64-bit file. -/
  wide : Bool

/-- A section header, in the layout of its segment command. -/
def readSection (src : Source) (wide : Bool) (index : Nat) (entry : Bytes) : Section :=
  let w := if wide then 8 else 4
  let rest := 32 + 2 * w
  let flags := word32 src.order entry (rest + 16)
  let size := address src.order entry (32 + w) w
  let offset := word32 src.order entry rest
  let relocOffset := word32 src.order entry (rest + 8)
  let relocCount := word32 src.order entry (rest + 12)
  let data := if Section.zeroFillTypes.contains (flags &&& 0xff) then []
    else (slice? src.file offset.toNat size.toNat).getD []
  let relocs := (table? src.file relocOffset.toNat relocCount.toNat 8).getD []
  { index
    segmentName := Utf8.untilNul ((entry.drop 16).take 16)
    name := Utf8.untilNul (entry.take 16)
    addr := address src.order entry 32 w
    size, offset
    align := word32 src.order entry (rest + 4)
    relocOffset, relocCount, flags, data
    relocs := relocs.map (readReloc src.order src.cpuType) }

/-- The commands, sections and symbols read so far. -/
structure Contents where
  commands : List LoadCommand := []
  sections : List Section := []
  symbols : List Symbol := []

/-- A segment command and its sections, which are numbered after those already read. -/
def readSegment (src : Source) (wide : Bool) (before : Nat) (body : Bytes) :
    Except Malformed (Segment × List Section) :=
  let w := if wide then 8 else 4
  let rest := 24 + 4 * w
  let count := word32 src.order body (rest + 8)
  let headers := body.drop (rest + 16)
  match table? headers 0 count.toNat (if wide then 80 else 68) with
  | none => .error .sectionCount
  | some table =>
    let sections := table.mapIdx fun i => readSection src wide (before + i + 1)
    .ok
      ({ name := Utf8.untilNul ((body.drop 8).take 16)
         vmAddr := address src.order body 24 w
         vmSize := address src.order body (24 + w) w
         fileOffset := address src.order body (24 + 2 * w) w
         fileSize := address src.order body (24 + 3 * w) w
         maxProt := word32 src.order body rest
         initProt := word32 src.order body (rest + 4)
         sectionCount := count
         flags := word32 src.order body (rest + 12)
         sections := sections.map Section.index },
       sections)

/-- Least sizes of the commands that have a fixed part. -/
def minimumSizes : List (Nat × List UInt32) :=
  [(12, [0xe, 0xf, 0x12, 0x13, 0x14, 0x15, 0x17, 0x27, 0x2d, 0x8000001c]),
   (16, [0x16, 0x1d, 0x1e, 0x24, 0x25, 0x26, 0x29, 0x2a, 0x2b, 0x2e, 0x2f, 0x30, 0x80000033,
     0x80000034]),
   (20, [0x10, 0x21]),
   (24, [0x2, 0xc, 0xd, 0x1b, 0x20, 0x2c, 0x32, 0x80000018, 0x8000001f, 0x80000023, 0x80000028]),
   (32, [0x80000035]),
   (40, [0x11, 0x31]),
   (48, [0x22, 0x80000022]),
   (56, [0x1]),
   (72, [0x19, 0x1a]),
   (80, [0xb])]

def minimumSize (tag : UInt32) : Nat :=
  match minimumSizes.find? fun (_, tags) => tags.contains tag with
  | some (size, _) => size
  | none => 0

def libraryTags : List UInt32 := [0xc, 0xd, 0x20, 0x80000018, 0x8000001f, 0x80000023]

/-- A string of a command, at the offset stored at byte `field`. -/
def commandString (order : ByteOrder) (body : Bytes) (field : Nat) : String :=
  terminatedName (body.drop (number order body field 4))

/-- Reads one command; `body` is all of it. -/
def readCommand (src : Source) (body : Bytes) (c : Contents) : Except Malformed Contents :=
  let word (offset : Nat) := word32 src.order body offset
  let tag := word 0
  let add (directive : Directive) (c : Contents) : Contents :=
    { c with commands := c.commands ++ [⟨tag, word 4, directive⟩] }
  if body.length < minimumSize tag then .error .commandBody
  else if tag = 0x1 ∨ tag = 0x19 then do
    let (segment, sections) ← readSegment src (tag = 0x19) c.sections.length body
    return add (.segment segment) { c with sections := c.sections ++ sections }
  else if tag = 0x2 then
    let range : SymbolTableRange := ⟨word 8, word 12, word 16, word 20⟩
    let symbols := readSymbols src.order src.wide src.file range
    .ok (add (.symbolTable range) { c with symbols := c.symbols ++ symbols })
  else if tag = 0xb then
    .ok (add (.dynamicSymbols ((List.range 18).map fun i => word (8 + 4 * i))) c)
  else if libraryTags.contains tag then
    .ok (add (.library ⟨commandString src.order body 8, word 12, word 16, word 20⟩) c)
  else if tag = 0x8000001c then
    .ok (add (.searchPath (commandString src.order body 8)) c)
  else .ok (add .other c)

/-- Reads `count` commands from `rest`. -/
def readCommands (src : Source) : Nat → Bytes → Contents → Except Malformed Contents
  | 0, _, c => .ok c
  | count + 1, rest, c =>
    if rest.length < 8 then .error .commandHeader
    else
      let size := number src.order rest 4 4
      if size < 8 ∨ rest.length < size then .error .commandLength
      else do
        let c ← readCommand src (rest.take size) c
        readCommands src count (rest.drop size) c

-- ---------------------------------------------------------------------------
-- Files
-- ---------------------------------------------------------------------------

/-- A thin file. The magic number is kept as its bytes stand, so it tells the byte order. -/
def readThin (wide : Bool) (file : Bytes) : Except Malformed Image := do
  let magic := word32 .big file 0
  let order := if magic = 0xfeedface ∨ magic = 0xfeedfacf then ByteOrder.big else .little
  let headerSize := if wide then 32 else 28
  if file.length < headerSize then .error .header
  let word (offset : Nat) := word32 order file offset
  let header : Header :=
    { magic
      cpuType := word 4
      cpuSubtype := word 8
      fileType := word 12
      commandCount := word 16
      commandBytes := word 20
      flags := word 24 }
  match slice? file headerSize header.commandBytes.toNat with
  | none => .error .commandTable
  | some commands =>
    let src : Source := ⟨file, order, header.cpuType, wide⟩
    let c ← readCommands src header.commandCount.toNat commands {}
    return {
      header, order
      arch := Arch.ofCpuType header.cpuType
      commands := c.commands
      sections := c.sections
      symbols := c.symbols }

/-- One architecture of a fat file. -/
structure FatArch where
  cpuType : UInt32
  offset : Nat
  size : Nat

/-- The architectures of a fat file, whose own numbers are always big-endian. -/
def fatArches (wide : Bool) (file : Bytes) : Except Malformed (List FatArch) :=
  let count := number .big file 4 4
  match table? (file.drop 8) 0 count (if wide then 32 else 20) with
  | none => .error .fatTable
  | some table =>
    .ok <| table.map fun entry =>
      { cpuType := word32 .big entry 0
        offset := number .big entry 8 (if wide then 8 else 4)
        size := if wide then number .big entry 16 8 else number .big entry 12 4 }

/-- The architecture of the host, or else the first. -/
def chooseArch (host : Arch) (arches : List FatArch) : Option FatArch :=
  (arches.find? fun a => Arch.ofCpuType a.cpuType == host) <|> arches.head?

/-- A fat file, through its chosen slice. -/
def readFat (host : Arch) (wide : Bool) (file : Bytes) : Except Malformed Image := do
  let arches ← fatArches wide file
  match chooseArch host arches with
  | none => .error .fatEmpty
  | some arch =>
    match slice? file arch.offset arch.size with
    | none => .error .fatSlice
    | some inner =>
      match ← fileKind inner with
      | .thin32 => readThin false inner
      | .thin64 => readThin true inner
      | kind => .error (.sliceKind kind)

/-- The image in a thin or fat file. In a fat one, `host` is the CPU that is preferred: the one that
the program runs on. -/
def read (host : Arch) (file : Bytes) : Except Malformed Image := do
  match ← fileKind file with
  | .thin32 => readThin false file
  | .thin64 => readThin true file
  | .fat32 => readFat host false file
  | .fat64 => readFat host true file
  | kind => .error (.fileKind kind)

end MachInspect.Image
