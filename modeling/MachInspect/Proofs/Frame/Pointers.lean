-- SUMMARY: Encoded pointers are read from their own bytes, in every format, and not from fewer.
import MachInspect.Proofs.Binary.Exactness
import MachInspect.Proofs.Frame.Reading

/-!
# Encoded pointers

What a stored number leads to (`Target`), and that reading a pointer gives its number and its target
in every documented format, wherever its bytes stand. A pointer of which the last bytes are missing
is never read as a shorter one.
-/
namespace MachInspect.Frame

/-! ## What is documented -/

namespace Encoding.Format

/-- What is reported if the bytes of a number end too early. -/
def item : Encoding.Format → Item
  | word _ _ => .encodedPointer
  | uleb128 => .uleb128
  | sleb128 => .sleb128

end Encoding.Format

/-- What a pointer with the number `value`, stored at address `field`, leads to, by the high four
bits of its encoding: absolute pointers to their number, relative ones to somewhere, which is as far
from `field` as the number says where pointers have eight bytes, and all others to no address. -/
structure Target (encoding : UInt8) (pointerSize : Nat) (field : UInt64) (value : Int)
    (p : Pointer) : Prop where
  absolute : encoding &&& 0xf0 = 0x00 → p.address = some p.raw
  relative : encoding &&& 0xf0 = 0x10 → ∃ target, p.address = some target ∧
    (pointerSize = 8 → (target.toNat : Int) = (field.toNat + value) % 2 ^ 64)
  other : encoding &&& 0xf0 ≠ 0x00 → encoding &&& 0xf0 ≠ 0x10 → p.address = none

/-! ## Numbers cut short -/

section

variable (order : ByteOrder) (before : Bytes) {k : Nat}

theorem read_word_take {width : Nat} (signed : Bool) {bytes : Bytes}
    (hlength : bytes.length = width) (hk : k < width) :
    (Encoding.Format.word width signed).read order (before ++ bytes.take k) before.length =
      .error (.truncated .encodedPointer before.length width k) := by
  have htake : (bytes.take k).length = k := List.length_take_of_le (by omega)
  have hslice : slice? (before ++ bytes.take k) before.length width = none := by
    rw [slice?, List.length_append, htake]
    exact if_neg (by omega)
  rw [Encoding.Format.read, hslice, List.length_append, htake, Nat.add_sub_cancel_left]

/-- A number is missed if the last of its bytes are missing. -/
theorem Encoding.Format.Number.read_take {format : Encoding.Format} (number : format.Number)
    (hk : k < (number.bytes order).length) :
    ∃ needed, k < needed ∧
      format.read order (before ++ (number.bytes order).take k) before.length =
        .error (.truncated format.item before.length needed k) := by
  cases number with
  | @unsigned width value _ =>
    have hlength : (order.encode width value).length = width := order.length_encode width value
    exact ⟨width, hlength ▸ hk, read_word_take order before false hlength (hlength ▸ hk)⟩
  | @signed width value _ _ =>
    have hlength := order.length_encode width (value % 256 ^ width).toNat
    exact ⟨width, hlength ▸ hk, read_word_take order before true hlength (hlength ▸ hk)⟩
  | uleb128 number =>
    refine ⟨k + 1, Nat.lt_succ_self k, ?_⟩
    rw [Encoding.Format.read, Leb128.unsigned_eq, bytes, Leb128.Unsigned.bytes,
      Leb128.groupAt_take_encode number.more_lt hk]
    rfl
  | sleb128 number =>
    refine ⟨k + 1, Nat.lt_succ_self k, ?_⟩
    rw [Encoding.Format.read, Leb128.signed_eq, bytes, Leb128.Signed.bytes,
      Leb128.groupAt_take_encode number.more_lt hk]
    rfl

end

/-! ## Pointers -/

/-- The target of a stored pointer is the documented one. -/
theorem StoredPointer.target {encoding : UInt8} {pointerSize : Nat} {format : Encoding.Format}
    (hformat : (encoding &&& 0x0f, format) ∈ formats pointerSize) (number : format.Number)
    (order : ByteOrder) (field : UInt64) :
    Target encoding pointerSize field number.value
      ((StoredPointer.stored hformat number).pointer order field) where
  absolute h := if_pos h
  relative h := by
    refine ⟨UInt64.ofInt (field.toNat + number.value), ?_, fun _ => toNat_ofInt _⟩
    rw [StoredPointer.pointer, StoredPointer.address?, h]
    rfl
  other habsolute hrelative := by
    rw [StoredPointer.pointer, StoredPointer.address?, if_neg habsolute, if_neg hrelative]

/-- An encoded pointer is read from its own bytes, whatever stands before and after them: its number
modulo `2 ^ 64`, its length, and what it leads to. If the last of its bytes are missing, the data
have ended too early, and the error says how many bytes there are. -/
theorem pointers_read_locally {pointerSize : Nat} (hsize : pointerSize = 4 ∨ pointerSize = 8)
    {encoding : UInt8} {format : Encoding.Format}
    (hformat : (encoding &&& 0x0f, format) ∈ formats pointerSize) (number : format.Number)
    (order : ByteOrder) (field : UInt64) (before : Bytes) :
    (∀ after, ∃ p,
      Pointer.read order pointerSize (before ++ (number.bytes order ++ after)) before.length
        encoding field = .ok p ∧
      (p.raw.toNat : Int) = number.value % 2 ^ 64 ∧ p.length = (number.bytes order).length ∧
      Target encoding pointerSize field number.value p) ∧
    ∀ k < (number.bytes order).length, ∃ needed, k < needed ∧
      Pointer.read order pointerSize (before ++ (number.bytes order).take k) before.length
        encoding field = .error (.truncated format.item before.length needed k) := by
  constructor
  · intro after
    have hdrop : (before ++ (number.bytes order ++ after)).drop before.length =
        number.bytes order ++ after := List.drop_left
    have hread := StoredPointer.read hsize (.stored hformat number) (by simp) hdrop field
    exact ⟨_, hread, toNat_ofInt _, rfl, StoredPointer.target hformat number order field⟩
  · intro k hk
    obtain ⟨needed, hneeded, hread⟩ := number.read_take order before hk
    refine ⟨needed, hneeded, ?_⟩
    rw [Pointer.read, if_neg (ne_omitted_of_mem hformat), format?_of_mem hsize hformat]
    dsimp only
    rw [hread]
    rfl

/-- A relative pointer of four bytes that leads back, and an indirect one in three bytes where one
would do, whole and without their last byte. -/
theorem backward_and_padded_pointers_read :
    ((∃ p, Pointer.read .big 8 [0xaa, 0xff, 0xff, 0xff, 0xe0, 0xaa] 1 0x1b 0x1000 = .ok p ∧
        (p.raw.toNat : Int) = -0x20 % 2 ^ 64 ∧ p.length = 4 ∧ Target 0x1b 8 0x1000 (-0x20) p) ∧
      ∃ needed, 3 < needed ∧ Pointer.read .big 8 [0xaa, 0xff, 0xff, 0xff] 1 0x1b 0x1000 =
        .error (.truncated .encodedPointer 1 needed 3)) ∧
    (∃ p, Pointer.read .little 4 [0xaa, 0xfe, 0xff, 0x7f, 0xaa] 1 0x89 0x1000 = .ok p ∧
        (p.raw.toNat : Int) = -2 % 2 ^ 64 ∧ p.length = 3 ∧ Target 0x89 4 0x1000 (-2) p) ∧
      ∃ needed, 2 < needed ∧ Pointer.read .little 4 [0xaa, 0xfe, 0xff] 1 0x89 0x1000 =
        .error (.truncated .sleb128 1 needed 2) := by
  have hsigned : ((0x1b : UInt8) &&& 0x0f, Encoding.Format.word 4 true) ∈ formats 8 := by decide
  have hword := pointers_read_locally (.inr rfl) hsigned
    (.signed (-0x20) (by decide) (by decide)) .big 0x1000 [0xaa]
  have hsleb128 : ((0x89 : UInt8) &&& 0x0f, Encoding.Format.sleb128) ∈ formats 4 := by decide
  have hpadded := pointers_read_locally (.inl rfl) hsleb128
    (.sleb128 ⟨-2, 2, by decide, by decide, by decide⟩) .little 0x1000 [0xaa]
  exact ⟨⟨hword.1 [0xaa], hword.2 3 (by decide)⟩, hpadded.1 [0xaa], hpadded.2 2 (by decide)⟩

end MachInspect.Frame
