-- SUMMARY: The pieces of a byte string spell that byte string.
import Mathlib.Data.List.Forall2
import MachInspect.Text.Utf8

/-!
# Pieces spell their bytes

`Utf8.pieces` cuts bytes into characters and broken runs. A character stands for the bytes of its
UTF-8 form and a broken run for its own bytes; written one after the other they are the bytes that
were cut.
-/
namespace MachInspect.Text.Utf8

/-- The bytes that a piece stands for. -/
def Piece.bytes : Piece → Bytes
  | .char c => String.utf8EncodeChar c
  | .broken bytes => bytes

/-! ## Ranges of bytes -/

section Ranges

variable {ranges : List (UInt8 × UInt8)} {rest : Bytes}

/-- Whether a byte lies in a range, both ends included. -/
def Within (range : UInt8 × UInt8) (b : UInt8) : Prop :=
  range.1.toNat ≤ b.toNat ∧ b.toNat ≤ range.2.toNat

/-- Whether a byte can come after the first one of a character. -/
def Follows (b : UInt8) : Prop := 0x80 ≤ b.toNat ∧ b.toNat ≤ 0xbf

theorem Within.follows {lo hi b : UInt8} (h : Within (lo, hi) b) (hlo : 0x80 ≤ lo.toNat)
    (hhi : hi.toNat ≤ 0xbf) : Follows b :=
  ⟨Nat.le_trans hlo h.1, Nat.le_trans h.2 hhi⟩

theorem matching_append_drop (ranges : List (UInt8 × UInt8)) (rest : Bytes) :
    matching ranges rest ++ rest.drop (matching ranges rest).length = rest := by
  fun_induction matching ranges rest with
  | case1 lo hi ranges b rest hb ih => simpa using ih
  | case2 lo hi ranges b rest hb => rfl
  | case3 ranges rest hnone => rfl

theorem within_matching (h : (matching ranges rest).length = ranges.length) :
    List.Forall₂ Within ranges (matching ranges rest) := by
  fun_induction matching ranges rest with
  | case1 lo hi ranges b rest hb ih =>
    have hwithin : Within (lo, hi) b := hb
    exact .cons hwithin (ih (by simpa using h))
  | case2 lo hi ranges b rest hb => simp at h
  | case3 ranges rest hnone =>
    obtain rfl : ranges = [] := by simpa using h.symm
    exact .nil

end Ranges

/-! ## Characters -/

section Characters

variable {lead b c d : UInt8} {n : Nat}

/-- The UTF-8 form of a code point, by the number of bytes it takes. -/
theorem utf8EncodeChar_ofNat (h : n.isValidChar) :
    String.utf8EncodeChar (Char.ofNat n) =
      if n ≤ 0x7f then [UInt8.ofNat n]
      else if n ≤ 0x7ff then [UInt8.ofNat (n / 64 % 32 + 0xc0), UInt8.ofNat (n % 64 + 0x80)]
      else if n ≤ 0xffff then
        [UInt8.ofNat (n / 4096 % 16 + 0xe0), UInt8.ofNat (n / 64 % 64 + 0x80),
          UInt8.ofNat (n % 64 + 0x80)]
      else
        [UInt8.ofNat (n / 262144 % 8 + 0xf0), UInt8.ofNat (n / 4096 % 64 + 0x80),
          UInt8.ofNat (n / 64 % 64 + 0x80), UInt8.ofNat (n % 64 + 0x80)] := by
  have hvalue : (Char.ofNat n).val.toNat = n := by
    rw [Char.ofNat, dif_pos h]
    rfl
  simp only [String.utf8EncodeChar, hvalue]

theorem byte_eq (h : n = b.toNat) : UInt8.ofNat n = b := by
  rw [h, UInt8.ofNat_toNat]

theorem encode_one (hlead : lead.toNat < 0x80) :
    String.utf8EncodeChar (Char.ofNat (scalar lead [])) = [lead] := by
  have hscalar : scalar lead [] = lead.toNat := rfl
  rw [hscalar, utf8EncodeChar_ofNat (.inl (by omega)), if_pos (by omega), UInt8.ofNat_toNat]

theorem encode_two (hlo : 0xc2 ≤ lead.toNat) (hhi : lead.toNat < 0xe0) (hb : Follows b) :
    String.utf8EncodeChar (Char.ofNat (scalar lead [b])) = [lead, b] := by
  obtain ⟨hb₁, hb₂⟩ := hb
  generalize hn : scalar lead [b] = n
  have hscalar : lead.toNat % 0x20 * 0x40 + b.toNat % 0x40 = n := hn
  rw [utf8EncodeChar_ofNat (.inl (by omega)), if_neg (by omega), if_pos (by omega),
    byte_eq (b := lead) (by omega), byte_eq (b := b) (by omega)]

/-- The second byte is restricted where the code point would have a shorter form or be a
surrogate. -/
theorem encode_three (hlo : 0xe0 ≤ lead.toNat) (hhi : lead.toNat < 0xf0) (hb : Follows b)
    (hc : Follows c) (hshort : lead.toNat = 0xe0 → 0xa0 ≤ b.toNat)
    (hsurrogate : lead.toNat = 0xed → b.toNat ≤ 0x9f) :
    String.utf8EncodeChar (Char.ofNat (scalar lead [b, c])) = [lead, b, c] := by
  obtain ⟨hb₁, hb₂⟩ := hb
  obtain ⟨hc₁, hc₂⟩ := hc
  generalize hn : scalar lead [b, c] = n
  have hscalar : (lead.toNat % 0x10 * 0x40 + b.toNat % 0x40) * 0x40 + c.toNat % 0x40 = n := hn
  have hchar : n.isValidChar := by
    unfold Nat.isValidChar
    omega
  rw [utf8EncodeChar_ofNat hchar, if_neg (by omega), if_neg (by omega), if_pos (by omega),
    byte_eq (b := lead) (by omega), byte_eq (b := b) (by omega), byte_eq (b := c) (by omega)]

/-- The second byte is restricted where the code point would have a shorter form or be past the
last one. -/
theorem encode_four (hlo : 0xf0 ≤ lead.toNat) (hhi : lead.toNat ≤ 0xf4) (hb : Follows b)
    (hc : Follows c) (hd : Follows d) (hshort : lead.toNat = 0xf0 → 0x90 ≤ b.toNat)
    (hlast : lead.toNat = 0xf4 → b.toNat ≤ 0x8f) :
    String.utf8EncodeChar (Char.ofNat (scalar lead [b, c, d])) = [lead, b, c, d] := by
  obtain ⟨hb₁, hb₂⟩ := hb
  obtain ⟨hc₁, hc₂⟩ := hc
  obtain ⟨hd₁, hd₂⟩ := hd
  generalize hn : scalar lead [b, c, d] = n
  have hscalar : ((lead.toNat % 0x08 * 0x40 + b.toNat % 0x40) * 0x40 + c.toNat % 0x40) * 0x40
      + d.toNat % 0x40 = n := hn
  rw [utf8EncodeChar_ofNat (.inr ⟨by omega, by omega⟩), if_neg (by omega), if_neg (by omega),
    if_neg (by omega), byte_eq (b := lead) (by omega), byte_eq (b := b) (by omega),
    byte_eq (b := c) (by omega), byte_eq (b := d) (by omega)]

/-- A lead byte and bytes in the ranges it asks for are the UTF-8 form of the code point that they
spell. -/
theorem utf8EncodeChar_scalar {ranges : List (UInt8 × UInt8)} {tail : Bytes}
    (hlead : followers lead = some ranges) (htail : List.Forall₂ Within ranges tail) :
    String.utf8EncodeChar (Char.ofNat (scalar lead tail)) = lead :: tail := by
  revert hlead
  -- one case for each kind of lead byte that starts a character
  fun_cases followers lead <;> rintro ⟨⟩ <;>
    simp only [UInt8.lt_iff_toNat_lt, ← UInt8.toNat_inj, UInt8.reduceToNat] at *
  · cases htail
    exact encode_one (by omega)
  · rcases htail with _ | ⟨hb, ⟨⟩⟩
    exact encode_two (by omega) (by omega) hb
  · rcases htail with _ | ⟨hb, _ | ⟨hc, ⟨⟩⟩⟩
    exact encode_three (by omega) (by omega) (hb.follows (by decide) (by decide)) hc
      (fun _ => hb.1) (by omega)
  · rcases htail with _ | ⟨hb, _ | ⟨hc, ⟨⟩⟩⟩
    exact encode_three (by omega) (by omega) (hb.follows (by decide) (by decide)) hc
      (by omega) (fun _ => hb.2)
  · rcases htail with _ | ⟨hb, _ | ⟨hc, ⟨⟩⟩⟩
    exact encode_three (by omega) (by omega) hb hc (by omega) (by omega)
  · rcases htail with _ | ⟨hb, _ | ⟨hc, _ | ⟨hd, ⟨⟩⟩⟩⟩
    exact encode_four (by omega) (by omega) (hb.follows (by decide) (by decide)) hc hd
      (fun _ => hb.1) (by omega)
  · rcases htail with _ | ⟨hb, _ | ⟨hc, _ | ⟨hd, ⟨⟩⟩⟩⟩
    exact encode_four (by omega) (by omega) hb hc hd (by omega) (by omega)
  · rcases htail with _ | ⟨hb, _ | ⟨hc, _ | ⟨hd, ⟨⟩⟩⟩⟩
    exact encode_four (by omega) (by omega) (hb.follows (by decide) (by decide)) hc hd
      (by omega) (fun _ => hb.2)

end Characters

/-! ## Pieces -/

/-- The first piece stands for the bytes that it takes. -/
theorem bytes_first (lead : UInt8) (rest : Bytes) :
    (first lead rest).1.bytes ++ rest.drop (first lead rest).2 = lead :: rest := by
  unfold first
  cases hlead : followers lead with
  | none => rfl
  | some ranges =>
    dsimp only
    split
    · rename_i hall
      rw [Piece.bytes, utf8EncodeChar_scalar hlead (within_matching hall), List.cons_append,
        matching_append_drop]
    · rw [Piece.bytes, List.cons_append, matching_append_drop]

/-- The pieces of a byte string spell it. -/
theorem flatMap_bytes_pieces (data : Bytes) : (pieces data).flatMap Piece.bytes = data := by
  fun_induction pieces data with
  | case1 => rfl
  | case2 lead rest piece used hfirst ih =>
    have hbytes := bytes_first lead rest
    rw [hfirst] at hbytes
    rw [List.flatMap_cons, ih, hbytes]

end MachInspect.Text.Utf8
