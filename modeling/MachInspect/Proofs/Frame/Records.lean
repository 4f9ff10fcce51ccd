-- SUMMARY: Stored call-frame records are read back where they stand.
import MachInspect.Proofs.Frame.Bodies

/-!
# Stored records in a section

`StandsAt` says that a stored record stands at an offset of a section. Its head is read first and
gives the end of the record; then its body is read, and the walk adds it to the records met so far.
-/
namespace MachInspect.Frame

open Text

/-! ## Sizes -/

section Sizes

variable {index : SymbolIndex}

theorem length_idPiece (e : Entry index) : e.idPiece.bytes.length = 4 := by
  cases e <;> exact ByteOrder.length_encode _ _ _

theorem bytes_eq (e : Entry index) :
    e.bytes = Piece.stored e.lengthPieces ++ (e.idPiece.bytes ++ Piece.stored e.body) := by
  rw [Entry.bytes, Entry.pieces, Piece.stored_append, Piece.stored_cons]

/-- The length counts what comes after it. -/
theorem idOffset_add_count (e : Entry index) (offset : Nat) :
    e.idOffset offset + e.count = offset + e.bytes.length := by
  rw [bytes_eq, List.length_append, List.length_append, length_idPiece, Entry.idOffset, Entry.count]
  omega

theorem length_bytes_pos (e : Entry index) : 0 < e.bytes.length := by
  have hcount := idOffset_add_count e 0
  rw [Entry.count] at hcount
  omega

end Sizes

/-! ## Record heads -/

section Heads

variable {src : Source} {rest : Bytes}

theorem reads_shortLength {count : Nat} (hcount : count < extendedMark) :
    Reads src rest (lengthFields src)
      [.plain "Length" (src.order.encode 4 count) (decimal count)] count := by
  intro c h
  rw [Piece.stored_singleton] at h
  have hvalue : src.order.value (src.order.encode 4 count) = count :=
    src.order.value_encode _ _ (Nat.lt_trans hcount (by decide))
  have htake : exec (Reader.take src .recordLength 4) c = (.ok _, c.skip 4) :=
    exec_take _ (src.order.length_encode _ _) h
  have hpush : exec (Reader.push src c.pos "Length" (decimal count)) (c.skip 4)
      = (.ok ⟨⟩, c.past src _) := exec_push (src.order.length_encode _ _) h
  rw [lengthFields, exec_bind_ok exec_here, exec_bind_ok htake]
  dsimp only
  rw [hvalue, if_neg (Nat.ne_of_lt hcount), exec_bind_ok hpush]
  rfl

theorem reads_extendedLength {count : Nat} (hcount : count < 2 ^ 64) :
    Reads src rest (lengthFields src)
      [.plain "Length" (src.order.encode 4 extendedMark) "extended",
        .plain "Extended Length" (src.order.encode 8 count) (decimal count)] count := by
  intro c h
  rw [Piece.stored_cons, Piece.stored_singleton, List.append_assoc] at h
  have hmark : src.order.value (src.order.encode 4 extendedMark) = extendedMark :=
    src.order.value_encode _ _ (by decide)
  have hvalue : src.order.value (src.order.encode 8 count) = count :=
    src.order.value_encode _ _ hcount
  have htake : exec (Reader.take src .recordLength 4) c = (.ok _, c.skip 4) :=
    exec_take _ (src.order.length_encode _ _) h
  have hpush : exec (Reader.push src c.pos "Length" "extended") (c.skip 4)
      = (.ok ⟨⟩, c.past src _) := exec_push (src.order.length_encode _ _) h
  have htake' : exec (Reader.take src .extendedLength 8) (c.past src _) = (.ok _, _) :=
    exec_take _ (src.order.length_encode _ _) h.past
  have hpush' : exec (Reader.push src (c.past src _).pos "Extended Length" (decimal count)) _
      = (.ok ⟨⟩, _) := exec_push (src.order.length_encode _ _) h.past
  rw [lengthFields, exec_bind_ok exec_here, exec_bind_ok htake]
  dsimp only
  rw [if_pos hmark, exec_bind_ok hpush, exec_bind_ok exec_here, exec_bind_ok htake',
    hvalue, exec_bind_ok hpush']
  rfl

theorem reads_lengthFields {extended : Bool} {count : Nat} (hcount : count < 2 ^ 64)
    (hfits : extended = false → count < extendedMark) :
    Reads src rest (lengthFields src) (Piece.length src.order extended count) count := by
  cases extended with
  | false => exact reads_shortLength (hfits rfl)
  | true => exact reads_extendedLength hcount

theorem aligned_of_dvd {size offset : Nat} (h : size ∣ offset) : aligned size offset = offset := by
  obtain ⟨count, rfl⟩ := h
  rcases Nat.eq_zero_or_pos size with rfl | hpos
  · simp [aligned]
  · have hdiv : (size * count + size - 1) / size = count := by
      rw [Nat.add_sub_assoc hpos, Nat.mul_add_div hpos, Nat.div_eq_of_lt (by omega), Nat.add_zero]
    rw [aligned, hdiv, Nat.mul_comm]

/-- The cursor before the identifier of a record at `offset`. -/
def idCursor (src : Source) (offset : Nat) (e : Entry src.index) : Cursor :=
  Cursor.pastAll src ⟨offset, offset + e.bytes.length, []⟩ e.lengthPieces

/-- A record stands in the section, and its length is fine. -/
structure StandsAt (src : Source) (offset : Nat) (e : Entry src.index) : Prop where
  offset_le : offset ≤ src.data.length
  drop_eq : ∃ following, src.data.drop offset = e.bytes ++ following
  size_lt : src.data.length < 2 ^ 64
  fits : e.extended = false → e.count < extendedMark
  aligned : src.pointerSize ∣ offset + e.bytes.length

namespace StandsAt

variable {offset : Nat} {e : Entry src.index}

theorem end_le (h : StandsAt src offset e) : offset + e.bytes.length ≤ src.data.length := by
  obtain ⟨following, hdrop⟩ := h.drop_eq
  have hlength := congrArg List.length hdrop
  have hoffset := h.offset_le
  rw [List.length_drop, List.length_append] at hlength
  omega

/-- Before the record, when its end is not known yet. -/
theorem rest_section (h : StandsAt src offset e) : ∃ following,
    Rest src ⟨offset, src.data.length, []⟩ (Piece.stored e.lengthPieces ++ following) := by
  obtain ⟨following, hdrop⟩ := h.drop_eq
  refine ⟨(e.idPiece.bytes ++ Piece.stored e.body) ++ following, h.offset_le, Nat.le_refl _, ?_⟩
  rw [List.take_length, hdrop, bytes_eq, List.append_assoc]

/-- Before the record, when its end is known. -/
theorem rest_record (h : StandsAt src offset e) :
    Rest src ⟨offset, offset + e.bytes.length, []⟩ e.bytes where
  pos_le := Nat.le_add_right _ _
  limit_le := h.end_le
  left_eq := by
    obtain ⟨following, hdrop⟩ := h.drop_eq
    rw [List.drop_take, hdrop, Nat.add_sub_cancel_left, List.take_left]

theorem rest_id (h : StandsAt src offset e) :
    Rest src (idCursor src offset e) (e.idPiece.bytes ++ Piece.stored e.body) := by
  have hrest := h.rest_record
  rw [bytes_eq] at hrest
  have hpast := hrest.pastAll
  rwa [← bytes_eq] at hpast

theorem value_id (e : Entry src.index) :
    UInt32.ofNat (src.order.value e.idPiece.bytes) = e.id := by
  cases e with
  | cie c =>
    have hvalue : src.order.value (src.order.encode 4 0) = 0 :=
      src.order.value_encode _ _ (by decide)
    exact congrArg UInt32.ofNat hvalue
  | fde f =>
    have hvalue : src.order.value (src.order.encode 4 f.back.toNat) = f.back.toNat :=
      src.order.value_encode _ _ f.back.toNat_lt
    exact (congrArg UInt32.ofNat hvalue).trans UInt32.ofNat_toNat

/-- The head of a record is read, and the next record stands at its end. -/
theorem head_eq (h : StandsAt src offset e) :
    head src offset = .body ((idCursor src offset e).skip 4) e.id (e.idOffset offset)
      (offset + e.bytes.length) (offset + e.bytes.length) := by
  have hend := h.end_le
  have hsize := h.size_lt
  have hcount := idOffset_add_count e offset
  obtain ⟨following, hrest⟩ := h.rest_section
  have hlength : (lengthFields src).run.run ⟨offset, src.data.length, []⟩
      = (.ok e.count, Cursor.pastAll src ⟨offset, src.data.length, []⟩ e.lengthPieces) :=
    reads_lengthFields (by omega) h.fits _ hrest
  have htake : (Reader.take src .cieId 4).run.run (idCursor src offset e)
      = (.ok e.idPiece.bytes, (idCursor src offset e).skip 4) :=
    exec_take .cieId (length_idPiece e) h.rest_id
  have hnonzero : e.count ≠ 0 := by
    rw [Entry.count]
    omega
  rw [idCursor, Cursor.pastAll_eq, ← Entry.idOffset] at htake
  rw [Cursor.pastAll_eq, ← Entry.idOffset] at hlength
  unfold head
  dsimp only
  rw [hlength]
  dsimp only
  rw [if_neg hnonzero, hcount, if_neg (by omega), Nat.min_eq_left hend, aligned_of_dvd h.aligned,
    htake]
  dsimp only
  rw [value_id, idCursor, Cursor.pastAll_eq, ← Entry.idOffset]

/-- From the identifier on, the record is read to its end. -/
theorem exec_record (h : StandsAt src offset e) {α : Type} {body : Reader α} {a : α}
    (hbody : Reads src [] body e.body a) :
    exec (do
      Reader.push src (e.idOffset offset) e.idPiece.name
        (e.idPiece.text (src.addressAt (e.idOffset offset)))
      body) ((idCursor src offset e).skip 4)
      = (.ok a, Cursor.pastAll src ⟨offset, offset + e.bytes.length, []⟩ e.pieces) := by
  have hpos : (idCursor src offset e).pos = e.idOffset offset := Cursor.pos_pastAll _ _ _
  have hpush := exec_push (length_idPiece e) h.rest_id
  have hrest := h.rest_id.past
  rw [← List.append_nil (Piece.stored e.body)] at hrest
  rw [hpos] at hpush
  rw [exec_bind_ok hpush, hbody _ hrest, Entry.pieces, Cursor.pastAll_append]
  rfl

theorem addCie_eq {c : StoredCie src.index} (h : StandsAt src offset (.cie c)) (w : Walk) :
    w.addCie src offset ((idCursor src offset (.cie c)).skip 4) ((Entry.cie c).idOffset offset)
        (offset + (Entry.cie c).bytes.length)
      = { w with
          groups := w.groups ++ [⟨w.groups.length,
            (Entry.cie c).record .cie src.base w.groups.length offset, []⟩]
          known := w.known ++ [⟨offset, w.groups.length, some c.layout⟩] } := by
  have hend : ¬ src.data.length < offset + (Entry.cie c).bytes.length := Nat.not_lt.mpr h.end_le
  have hread : (do
      Reader.push src ((Entry.cie c).idOffset offset) "CIE ID" "0"
      cieBody src : Reader Layout).run.run ((idCursor src offset (.cie c)).skip 4)
      = (.ok c.layout, _) := h.exec_record (reads_cieBody c)
  unfold Walk.addCie
  dsimp only
  rw [hread, Cursor.pastAll_eq]
  simp only [checkExtent, if_neg hend]
  rfl

theorem addFdeAt_eq {f : StoredFde src.index} (h : StandsAt src offset (.fde f)) {w : Walk}
    {target number : Nat} {g : Group}
    (hreferred : w.referred? ((Entry.fde f).idOffset offset) f.back
      = some ⟨target, number, some f.cie.layout⟩)
    (hgroup : w.groups[number]? = some g) :
    w.addFdeAt src offset ((idCursor src offset (.fde f)).skip 4) f.back
        ((Entry.fde f).idOffset offset) (offset + (Entry.fde f).bytes.length)
      = { w with
          groups := addFde w.groups number
            ((Entry.fde f).record .fde src.base g.fdes.length offset) } := by
  have hend : ¬ src.data.length < offset + (Entry.fde f).bytes.length := Nat.not_lt.mpr h.end_le
  have hread : (do
      Reader.push src ((Entry.fde f).idOffset offset) "CIE Pointer"
        ("-" ++ hex f.back.toNat ++ " = "
          ++ hex (src.addressAt ((Entry.fde f).idOffset offset) - f.back.toUInt64).toNat)
      fdeBody src f.cie.layout : Reader Unit).run.run ((idCursor src offset (.fde f)).skip 4)
      = (.ok ⟨⟩, _) := h.exec_record (reads_fdeBody f)
  unfold Walk.addFdeAt
  dsimp only
  rw [hreferred]
  dsimp only
  rw [hread, hgroup, Cursor.pastAll_eq]
  simp only [checkExtent, if_neg hend]
  rfl

end StandsAt

end Heads

end MachInspect.Frame
