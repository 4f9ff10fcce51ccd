-- SUMMARY: Bytes decoded into rows, by semantic type.
import MachInspect.Code.Decoder
import MachInspect.Text.Quoted
import MachInspect.Value.Floating
import MachInspect.Value.LongDouble
import MachInspect.View.Row

/-!
# Regions

A region is what a view shows: bytes of the file, or a stretch of zeros that the file leaves out.
Decoding never fails: what cannot be shown in the way asked for is shown as data, with a warning.
The rows of a region follow each other without a gap.
-/
namespace MachInspect.View

open Text Value

/-- What decoding depends on besides the bytes. -/
structure Context where
  index : SymbolIndex
  /-- The CPU that the program runs on. -/
  host : Arch
  /-- Decode `long double` also for CPUs that are not the host's. -/
  forceLongDouble : Bool

namespace Context

def image (ctx : Context) : Image := ctx.index.image

/-- How `long double` is laid out, if it is to be decoded. -/
def longDouble? (ctx : Context) : Option LongDoubleLayout :=
  if ctx.forceLongDouble ∨ ctx.image.arch = ctx.host then ctx.image.arch.longDouble? else none

end Context

/-- What is stored in a region. -/
inductive Contents where
  /-- Bytes of the file. -/
  | present (data : Bytes)
  /-- So many zeros that are not in the file. -/
  | zeroFill (length : UInt64)
  deriving DecidableEq, Repr

/-- Rows, and warnings about how they were made. -/
structure Decoded where
  rows : List Row
  warnings : List String
  deriving DecidableEq, Repr

-- ---------------------------------------------------------------------------
-- Zeros
-- ---------------------------------------------------------------------------

/-- Bytes in a row of data or zeros. -/
def dataWidth : Nat := 8

/-- A stretch of zeros takes at most so many rows; the last one takes all that is left. -/
def zeroRowLimit : Nat := 4096

/-- Rows for `length` zeros at `address`, at most `budget` of them. -/
def zeroRows : (budget : Nat) → (address : UInt64) → (length : Nat) → List Row
  | 0, _, _ => []
  | budget + 1, address, length =>
    if length = 0 then []
    else if 0 < budget ∨ length ≤ dataWidth then
      let step := min length dataWidth
      Row.ofZeros address (UInt64.ofNat step) "zero-fill"
        :: zeroRows budget (address + UInt64.ofNat step) (length - step)
    else
      [Row.ofZeros address (UInt64.ofNat length) ("zero-fill (" ++ hex length ++ " bytes)")]

-- ---------------------------------------------------------------------------
-- Bytes
-- ---------------------------------------------------------------------------

/-- Pieces of `width` bytes; the last one may be shorter. -/
def chunks (width : Nat) (data : Bytes) : List Bytes :=
  if width = 0 ∨ data = [] then []
  else data.take width :: chunks width (data.drop width)
termination_by data.length
decreasing_by
  have : data.length ≠ 0 := by simp_all
  simp only [List.length_drop]; omega

/-- Rows for pieces that follow each other from `address` on. -/
def layOut (text : Bytes → String) : UInt64 → List Bytes → List Row
  | _, [] => []
  | address, piece :: rest =>
    Row.ofBytes address piece (text piece)
      :: layOut text (address + UInt64.ofNat piece.length) rest

/-- Rows of `width` bytes each; a short one at the end is shown as characters. -/
def fixedRows (width : Nat) (text : Bytes → String) (address : UInt64) (data : Bytes) : List Row :=
  let text (piece : Bytes) := if piece.length = width then text piece else ascii piece
  layOut text address (chunks width data)

/-- Rows of eight bytes as characters, with the relocations in them. -/
def dataRows (relocs : List RelocRow) (address : UInt64) (data : Bytes) : List Row :=
  (layOut ascii address (chunks dataWidth data)).map fun row => row.attach row.length relocs

/-- Strings with their terminators. -/
def stringPieces (data : Bytes) : List Bytes :=
  match data with
  | [] => []
  | b :: rest =>
    let length := (Quoted.terminated (b :: rest)).2
    (b :: rest).take length :: stringPieces (rest.drop (length - 1))
termination_by data.length
decreasing_by simp only [List.length_drop, List.length_cons]; omega

/-- Rows of one string each. -/
def stringRows (address : UInt64) (data : Bytes) : List Row :=
  layOut (fun piece => (Quoted.terminated piece).1) address (stringPieces data)

/-- Rows of one instruction each, with the relocations in them. -/
def codeRows (decode : Code.Decoder) (relocs : List RelocRow) (address : UInt64) (data : Bytes) :
    List Row :=
  (Code.disassemble decode data address).map fun i =>
    let row := Row.ofBytes i.address i.bytes i.text
    row.attach row.length relocs

def integerText (image : Image) (data : Bytes) : String :=
  match image.order.signed? data with
  | some value => signedHex value.toInt
  | none => ""

/-- `0x0000000100003f50 (_main)`. -/
def pointerText (index : SymbolIndex) (data : Bytes) : String :=
  match index.image.order.unsigned? data with
  | none => ""
  | some value =>
    match index.lookup value with
    | some hit => addressText value ++ " (" ++ hit.names ++ ")"
    | none => addressText value

/-- Bytes of the file as rows. -/
def byteRows (ctx : Context) (semantic : Semantic) (relocs : List RelocRow) (address : UInt64)
    (data : Bytes) : Decoded :=
  let image := ctx.image
  match semantic with
  | .code =>
    match Code.decoder? ctx.index with
    | some decode => ⟨codeRows decode relocs address data, []⟩
    | none => ⟨dataRows relocs address data, ["no disassembler for " ++ image.arch.name]⟩
  | .cString => ⟨stringRows address data, []⟩
  | .float32 => ⟨fixedRows 4 (Floating.single image.order) address data, []⟩
  | .float64 => ⟨fixedRows 8 (Floating.double image.order) address data, []⟩
  | .float128 =>
    match ctx.longDouble? with
    | some layout => ⟨fixedRows 16 (LongDouble.text layout image.order) address data, []⟩
    | none =>
      ⟨fixedRows 16 (fun _ => "unsupported on this host") address data,
        ["long double of " ++ image.arch.name ++ " is unsupported on this host"]⟩
  | .int32 => ⟨fixedRows 4 (integerText image) address data, []⟩
  | .int64 => ⟨fixedRows 8 (integerText image) address data, []⟩
  | .pointer32 => ⟨fixedRows 4 (pointerText ctx.index) address data, []⟩
  | .pointer64 => ⟨fixedRows 8 (pointerText ctx.index) address data, []⟩
  | .data | .ehFrame | .declared => ⟨dataRows relocs address data, []⟩

/-- The contents of a region at `address` as rows. -/
def Contents.decode (ctx : Context) (semantic : Semantic) (relocs : List RelocRow)
    (address : UInt64) : Contents → Decoded
  | present data => byteRows ctx semantic relocs address data
  | zeroFill length => ⟨zeroRows zeroRowLimit address length.toNat, []⟩

end MachInspect.View
