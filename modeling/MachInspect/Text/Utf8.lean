-- SUMMARY: Bytes as text: the characters a byte string spells, and the bytes that spell none.
import MachInspect.Text.Hex

/-!
# Bytes as text

`Utf8.pieces` cuts a byte string into characters and broken runs. A broken run is the longest
beginning of some character that the bytes still match, so it has one to three bytes.
-/
namespace MachInspect.Text.Utf8

/-- A part of a byte string: a spelled character, or bytes that spell none. -/
inductive Piece where
  | char (c : Char)
  | broken (bytes : Bytes)
  deriving DecidableEq, Repr

/-- The ranges in which the bytes after `lead` have to lie; `none` if no character starts with it.
The second byte is restricted so that overlong forms, surrogates and values past `U+10FFFF` are
left out. -/
def followers (lead : UInt8) : Option (List (UInt8 × UInt8)) :=
  if lead < 0x80 then some []
  else if lead < 0xc2 then none
  else if lead < 0xe0 then some [(0x80, 0xbf)]
  else if lead = 0xe0 then some [(0xa0, 0xbf), (0x80, 0xbf)]
  else if lead = 0xed then some [(0x80, 0x9f), (0x80, 0xbf)]
  else if lead < 0xf0 then some [(0x80, 0xbf), (0x80, 0xbf)]
  else if lead = 0xf0 then some [(0x90, 0xbf), (0x80, 0xbf), (0x80, 0xbf)]
  else if lead < 0xf4 then some [(0x80, 0xbf), (0x80, 0xbf), (0x80, 0xbf)]
  else if lead = 0xf4 then some [(0x80, 0x8f), (0x80, 0xbf), (0x80, 0xbf)]
  else none

/-- The longest beginning of `rest` whose bytes lie in the given ranges, one range per byte. -/
def matching : List (UInt8 × UInt8) → Bytes → Bytes
  | (lo, hi) :: ranges, b :: rest =>
    if lo ≤ b ∧ b ≤ hi then b :: matching ranges rest else []
  | _, _ => []

/-- The code point spelled by a lead byte and its `tail`. -/
def scalar (lead : UInt8) (tail : Bytes) : Nat :=
  let start := match tail.length with
    | 0 => lead.toNat
    | 1 => lead.toNat % 0x20
    | 2 => lead.toNat % 0x10
    | _ => lead.toNat % 0x08
  tail.foldl (fun acc b => acc * 0x40 + b.toNat % 0x40) start

/-- The first piece of `lead :: rest` and how many bytes of `rest` belong to it. -/
def first (lead : UInt8) (rest : Bytes) : Piece × Nat :=
  match followers lead with
  | none => (.broken [lead], 0)
  | some ranges =>
    let tail := matching ranges rest
    if tail.length = ranges.length then (.char (Char.ofNat (scalar lead tail)), tail.length)
    else (.broken (lead :: tail), tail.length)

def pieces : Bytes → List Piece
  | [] => []
  | lead :: rest =>
    let (piece, used) := first lead rest
    piece :: pieces (rest.drop used)
termination_by data => data.length
decreasing_by simp only [List.length_cons, List.length_drop]; omega

/-- Text with one `U+FFFD` for each broken run. -/
def lossy (data : Bytes) : String :=
  String.ofList <| (pieces data).map fun
    | .char c => c
    | .broken _ => Char.ofNat 0xfffd

/-- The text of the bytes before the first NUL, or of all of them. -/
def untilNul (data : Bytes) : String := lossy (data.takeWhile (· ≠ 0))

end MachInspect.Text.Utf8
