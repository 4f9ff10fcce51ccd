-- SUMMARY: The bodies of stored call-frame records are read back.
import MachInspect.Proofs.Frame.Reading

/-!
# Bodies of stored records

The fields of a body are read one after the other, each where the one before it ends. What a common
record hands down to its frame records is what its letters say.
-/
namespace MachInspect.Frame

open Text

/-! ## Augmentation strings -/

section Strings

theorem pieces_ascii {b : UInt8} (h : b < 0x80) (rest : Bytes) :
    Utf8.pieces (b :: rest) = .char (Char.ofNat b.toNat) :: Utf8.pieces rest := by
  have hfirst : Utf8.first b rest = (.char (Char.ofNat b.toNat), 0) := by
    rw [Utf8.first, Utf8.followers, if_pos h]
    rfl
  rw [Utf8.pieces, hfirst]
  rfl

theorem toNat_charByte {ch : Char} (h : ch.toNat < 0x80) :
    (UInt8.ofNat ch.toNat).toNat = ch.toNat := by
  rw [UInt8.toNat_ofNat']
  omega

theorem lossy_ascii {chars : List Char} (h : ∀ ch ∈ chars, ch.toNat < 0x80) :
    Utf8.lossy (chars.map fun ch => UInt8.ofNat ch.toNat) = String.ofList chars := by
  have hpieces : Utf8.pieces (chars.map fun ch => UInt8.ofNat ch.toNat)
      = chars.map Utf8.Piece.char := by
    induction chars with
    | nil => simp [Utf8.pieces]
    | cons ch chars ih =>
      have hch : ch.toNat < 0x80 := h ch List.mem_cons_self
      have hbyte : UInt8.ofNat ch.toNat < 0x80 := by
        rw [UInt8.lt_iff_toNat_lt, toNat_charByte hch]
        exact hch
      rw [List.map_cons, List.map_cons, pieces_ascii hbyte, toNat_charByte hch, Char.ofNat_toNat,
        ih fun ch' hch' => h ch' (List.mem_cons_of_mem _ hch')]
  rw [Utf8.lossy, hpieces, List.map_map]
  exact congrArg String.ofList (List.map_id chars)

variable {src : Source} {rest : Bytes}

theorem reads_augmentationField {chars : List Char}
    (h : ∀ ch ∈ chars, 0 < ch.toNat ∧ ch.toNat < 0x80) :
    Reads src rest (augmentationField src)
      [.plain "Augmentation String" (chars.map (fun ch => UInt8.ofNat ch.toNat) ++ [0])
        (String.ofList chars)] (String.ofList chars) := by
  intro c hrest
  rw [Piece.stored_singleton] at hrest
  have hlossy := lossy_ascii fun ch hch => (h ch hch).2
  have hnonzero : ∀ b ∈ chars.map (fun ch => UInt8.ofNat ch.toNat), b ≠ 0 := by
    intro b hb hzero
    obtain ⟨ch, hch, rfl⟩ := List.mem_map.mp hb
    have htoNat := toNat_charByte (h ch hch).2
    rw [hzero] at htoNat
    exact Nat.ne_of_lt (h ch hch).1 htoNat
  generalize chars.map (fun ch => UInt8.ofNat ch.toNat) = bytes at hrest hlossy hnonzero ⊢
  have htext : ((src.data.take c.limit).drop c.pos).takeWhile (· ≠ 0) = bytes := by
    rw [hrest.left_eq, Piece.plain, List.append_assoc,
      List.takeWhile_append_of_pos fun b hb => decide_eq_true (hnonzero b hb)]
    simp
  have hlt : c.pos + bytes.length < c.limit := by
    rw [hrest.limit_eq, Piece.plain, List.length_append, List.length_append]
    simp only [List.length_singleton]
    omega
  have hpush : exec (Reader.push src c.pos "Augmentation String" (String.ofList chars))
      (c.skip (bytes.length + 1)) = (.ok ⟨⟩, c.past src _) :=
    exec_push (by simp [Piece.plain]) hrest
  rw [augmentationField, exec_bind_ok (exec_get c), htext]
  dsimp only
  rw [if_pos hlt, hlossy, exec_bind_ok (exec_advance _), exec_bind_ok hpush]
  rfl

end Strings

/-! ## Augmentation data -/

section Augmentations

variable {β : Type} {src : Source} {rest : Bytes}

theorem reads_cieLetters (stop : Nat) (letters : List (Letter src.index)) (layout : Layout) :
    Reads src rest (cieLetters src stop (letters.map Letter.char) layout)
      (letters.flatMap Letter.pieces) (letters.foldl Letter.handDown layout) := by
  induction letters generalizing layout with
  | nil => exact Reads.pure _
  | cons letter letters ih =>
    rw [List.flatMap_cons]
    cases letter with
    | personality encoding p =>
      exact (reads_encodingField _ _).cons ((reads_pointerField _ p).cons (ih _))
    | lsda encoding => exact (reads_encodingField _ _).cons (ih _)
    | frame encoding => exact (reads_encodingField _ _).cons (ih _)

theorem reads_fdeLetters (stop : Nat) {layout : Layout} (letters : List (Letter src.index))
    (lsda : StoredPointer src.index.image.pointerSize layout.lsdaEncoding) :
    Reads src rest (fdeLetters src layout stop (letters.map Letter.char))
      (letters.flatMap
        (Letter.framePieces (.pointer src.index "Augmentation Data (LSDA Pointer)" lsda))) ⟨⟩ := by
  induction letters with
  | nil => exact Reads.pure _
  | cons letter letters ih =>
    rw [List.flatMap_cons]
    cases letter with
    | personality encoding p => exact ih
    | lsda encoding => exact (reads_pointerField _ lsda).cons ih
    | frame encoding => exact ih

/-- Nothing is left to do at the declared end. -/
theorem exec_finishAugmentation (c : Cursor) :
    exec (finishAugmentation src c.pos) c = (.ok ⟨⟩, c) := by
  have hcheck : exec (checkAugmentation c.pos) c = (.ok ⟨⟩, c) := by
    rw [checkAugmentation, exec_bind_ok exec_here, if_neg (Nat.lt_irrefl _)]
    rfl
  rw [finishAugmentation, exec_bind_ok hcheck, exec_bind_ok (exec_get c), if_neg (Nat.lt_irrefl _)]
  rfl

/-- Augmentation data of the declared length, between its length and what comes after it. -/
theorem Reads.counted {α : Type} {m : Nat → UInt64 → Reader α} {k : α → Reader β}
    {u : Leb128.Unsigned} {pieces more : List Piece} {a : α} {b : β}
    (hexact : u.value = (Piece.stored pieces).length)
    (hm : ∀ pos length, Reads src (Piece.stored more ++ rest) (m pos length) pieces a)
    (hk : Reads src rest (k a) more b) :
    Reads src rest (do
      let length ← Reader.ulebField src "Augmentation Data Length"
      let pos ← Reader.here
      let x ← m pos length
      finishAugmentation src (pos + length.toNat)
      k x) (.uleb128 "Augmentation Data Length" u :: (pieces ++ more)) b := by
  have hdata : Reads src rest (do
      let pos ← Reader.here
      let x ← m pos (UInt64.ofNat u.value)
      finishAugmentation src (pos + (UInt64.ofNat u.value).toNat)
      k x) (pieces ++ more) b := by
    intro c h
    rw [Piece.stored_append, List.append_assoc] at h
    have hstop : c.pos + (UInt64.ofNat u.value).toNat = (c.pastAll src pieces).pos := by
      rw [u.toNat_value, hexact, Cursor.pos_pastAll]
    rw [exec_bind_ok exec_here, exec_bind_ok (hm _ _ c h), hstop,
      exec_bind_ok (exec_finishAugmentation _), hk _ h.pastAll, Cursor.pastAll_append]
  exact (reads_ulebField _ u).cons hdata

end Augmentations

/-! ## Bodies -/

section Bodies

variable {β : Type} {src : Source} {rest : Bytes}

theorem Reads.discard {α : Type} {m : Reader α} {pieces : List Piece} {a : α}
    (hm : Reads src rest m pieces a) : Reads src rest (discard m) pieces ⟨⟩ := by
  intro c h
  have hbind : exec (m >>= fun _ => (Pure.pure PUnit.unit : Reader PUnit)) c
      = (.ok ⟨⟩, c.pastAll src pieces) := exec_bind_ok (hm c h) _
  exact hbind

/-- The letters that an augmentation string gives back. -/
theorem augmentationLetters?_layout (c : StoredCie src.index) :
    augmentationLetters? (String.ofList c.augmentation)
      = c.augmentation?.map fun a => a.letters.map Letter.char := by
  unfold augmentationLetters? StoredCie.augmentation
  rw [String.toList_ofList]
  cases c.augmentation? with
  | none => rfl
  | some a => rfl

theorem augmentation_ascii (c : StoredCie src.index) :
    ∀ ch ∈ c.augmentation, 0 < ch.toNat ∧ ch.toNat < 0x80 := by
  intro ch hch
  unfold StoredCie.augmentation at hch
  cases haugmentation : c.augmentation? with
  | none =>
    rw [haugmentation] at hch
    cases hch
  | some a =>
    rw [haugmentation] at hch
    rcases List.mem_cons.mp hch with rfl | hletter
    · decide
    · obtain ⟨letter, _, rfl⟩ := List.mem_map.mp hletter
      cases letter <;> simp only [Letter.char] <;> decide

theorem augmentation_ne_eh (c : StoredCie src.index) : String.ofList c.augmentation ≠ "eh" := by
  intro heq
  have hchars : c.augmentation = ['e', 'h'] := by
    rw [← String.toList_ofList (l := c.augmentation), heq]
    rfl
  unfold StoredCie.augmentation at hchars
  split at hchars
  · cases hchars
  · cases hchars

/-- A signed number, read by hand, and what comes after it. -/
theorem Reads.signedField {name : String} {k : Reader β} {pieces : List Piece} {b : β}
    (u : Leb128.Signed) (hk : Reads src rest k pieces b) :
    Reads src rest (do
      let start ← Reader.here
      let x ← Reader.ofExcept (Leb128.signed (← Reader.visible src) start)
      Reader.advance x.2
      Reader.push src start name (signedDecimal x.1.toInt)
      k) (.plain name u.bytes (signedDecimal u.value) :: pieces) b := by
  intro c h
  rw [Piece.stored_cons, List.append_assoc] at h
  have hread : exec (Reader.ofExcept (Leb128.signed (src.data.take c.limit) c.pos)) c
      = (.ok (Int64.ofInt u.value, u.bytes.length), c) := by
    rw [u.read h.left_eq]
    rfl
  have hpush : exec (Reader.push src c.pos name (signedDecimal u.value)) (c.skip u.bytes.length)
      = (.ok ⟨⟩, c.past src (.plain name u.bytes (signedDecimal u.value))) := exec_push rfl h
  rw [exec_bind_ok exec_here, exec_bind_ok exec_visible, exec_bind_ok hread,
    exec_bind_ok (exec_advance _), u.toInt_value, exec_bind_ok hpush, hk _ h.past]
  rfl

theorem reads_cieEnd (c : StoredCie src.index) :
    Reads src []
      (cieEnd src (String.ofList c.augmentation) ⟨String.ofList c.augmentation, 0, omitted⟩)
      (c.augmentationPieces ++ [.instructions "Initial Instructions" c.instructions])
      c.layout := by
  rw [cieEnd, augmentationLetters?_layout]
  unfold StoredCie.augmentationPieces StoredCie.layout StoredCie.letters
  cases c.augmentation? with
  | none => exact reads_remainder_return _ c.instructions _
  | some a =>
    exact Reads.counted a.length_exact (fun _ _ => reads_cieLetters _ a.letters _)
      (reads_remainder_return _ c.instructions _)

theorem reads_cieBody (c : StoredCie src.index) : Reads src [] (cieBody src) c.body c.layout := by
  simp only [cieBody, pure_bind]
  -- One step for each piece of the body, in order; the versions only differ at the register.
  refine Reads.field (p := .plain "Version" [c.revision.version] _)
    (a := fun _ => c.revision.version) (fun _ => rfl) (fun cur h => exec_byte _ h) (fun _ => ?_)
  refine (reads_augmentationField (augmentation_ascii c)).cons ?_
  rw [if_neg (augmentation_ne_eh c)]
  refine (reads_ulebField _ c.codeFactor).discard.cons ?_
  refine Reads.signedField c.dataFactor ?_
  cases c.revision with
  | one register =>
    have hversion : (Revision.one register).version < 3 := show (1 : UInt8) < 3 by decide
    simp only [if_pos hversion]
    exact Reads.field (p := .plain "Return Address Register" [register] _)
      (a := fun _ => register) (fun _ => rfl) (fun cur h => exec_byte _ h) (fun _ => reads_cieEnd c)
  | three register =>
    have hversion : ¬ (Revision.three register).version < 3 := show ¬ (3 : UInt8) < 3 by decide
    simp only [if_neg hversion]
    exact Reads.field (p := .plain "Return Address Register" register.bytes _)
      (a := fun _ => UInt64.ofNat register.value) (fun _ => rfl)
      (fun cur h => exec_uleb128 register h) (fun _ => reads_cieEnd c)

theorem augmentation_handDown (letters : List (Letter src.index)) (layout : Layout) :
    (letters.foldl Letter.handDown layout).augmentation = layout.augmentation := by
  induction letters generalizing layout with
  | nil => rfl
  | cons letter letters ih => cases letter <;> exact ih _

theorem reads_fdeBody (f : StoredFde src.index) :
    Reads src [] (fdeBody src f.cie.layout) f.body ⟨⟩ := by
  have haugmentation : f.cie.layout.augmentation = String.ofList f.cie.augmentation :=
    augmentation_handDown f.cie.letters _
  have hexact := f.length_exact
  simp only [fdeBody, haugmentation, augmentationLetters?_layout]
  refine (reads_pointerField _ f.start).cons ?_
  refine Reads.field (p := .plain "PC Range" (f.range.bytes src.order) _)
    (a := fun field => f.range.pointer src.order field) (fun _ => rfl)
    (fun cur h => exec_pointer f.range h) (fun _ => ?_)
  unfold StoredFde.augmentationPieces
  unfold StoredCie.letters at hexact
  cases ha : f.cie.augmentation? with
  | none => exact reads_remainder _ f.instructions
  | some a =>
    rw [ha] at hexact
    exact Reads.counted hexact (fun _ _ => reads_fdeLetters _ a.letters f.lsda)
      (reads_remainder _ f.instructions)

end Bodies

end MachInspect.Frame
