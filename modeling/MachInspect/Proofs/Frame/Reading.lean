-- SUMMARY: Reading gives back the pointers and fields that are stored.
import MachInspect.Proofs.Execution
import MachInspect.Proofs.Frame.Stored

/-!
# Reading stored fields

`Reads` says that a reader, set before some stored pieces, moves past them, adds their fields and
gives a certain result. Readers that follow each other read pieces that follow each other.
-/
namespace MachInspect.Frame

open Text

/-! ## Pointers -/

theorem slice?_of_drop {data bytes rest : Bytes} {offset : Nat} (hle : offset ≤ data.length)
    (h : data.drop offset = bytes ++ rest) : slice? data offset bytes.length = some bytes := by
  have hlength : data.length - offset = bytes.length + rest.length := by
    rw [← List.length_drop, h, List.length_append]
  rw [slice?, if_pos (by omega), h, List.take_left]

/-! ### Formats -/

section

variable {encoding : UInt8} {pointerSize : Nat} {format : Encoding.Format}

/-- The reader has the documented formats. -/
theorem format?_of_mem (hsize : pointerSize = 4 ∨ pointerSize = 8)
    (h : (encoding &&& 0x0f, format) ∈ formats pointerSize) :
    Encoding.format? encoding pointerSize = some format := by
  unfold Encoding.format? Encoding.base
  generalize encoding &&& 0x0f = base at h
  simp only [formats, List.mem_cons, Prod.mk.injEq, List.not_mem_nil, or_false] at h
  obtain rfl | rfl := hsize <;>
    obtain ⟨rfl, rfl⟩ | ⟨rfl, rfl⟩ | ⟨rfl, rfl⟩ | ⟨rfl, rfl⟩ | ⟨rfl, rfl⟩ | ⟨rfl, rfl⟩ |
      ⟨rfl, rfl⟩ | ⟨rfl, rfl⟩ | ⟨rfl, rfl⟩ | ⟨rfl, rfl⟩ := h <;> rfl

/-- No format has the low bits of the encoding of pointers that are left out. -/
theorem ne_omitted_of_mem (h : (encoding &&& 0x0f, format) ∈ formats pointerSize) :
    encoding ≠ omitted := by
  rintro rfl
  have hbase : omitted &&& 0x0f = 0x0f := rfl
  rw [hbase] at h
  simp [formats] at h

/-- Words are at most eight bytes wide. -/
theorem width_le_of_mem (hsize : pointerSize = 4 ∨ pointerSize = 8) {base : UInt8} {width : Nat}
    {signed : Bool} (h : (base, .word width signed) ∈ formats pointerSize) : width ≤ 8 := by
  simp only [formats, List.mem_cons, Prod.mk.injEq, Encoding.Format.word.injEq, reduceCtorEq,
    and_false, false_or, List.not_mem_nil, or_false] at h
  omega

end

/-! ### Numbers -/

theorem Encoding.Format.Number.read {format : Encoding.Format} (number : format.Number)
    (hwidth : ∀ width signed, format = .word width signed → width ≤ 8) {order : ByteOrder}
    {data rest : Bytes} {offset : Nat} (hle : offset ≤ data.length)
    (h : data.drop offset = number.bytes order ++ rest) :
    format.read order data offset = .ok (number.raw, (number.bytes order).length) := by
  cases number with
  | @unsigned width value hlt =>
    have hslice := slice?_of_drop hle h
    rw [bytes, ByteOrder.length_encode] at hslice ⊢
    rw [Encoding.Format.read, hslice]
    dsimp only
    rw [ByteOrder.word, order.value_encode width value hlt, raw, Number.value, ofInt_natCast]
    rfl
  | @signed width value hlower hupper =>
    have hslice := slice?_of_drop hle h
    rw [bytes, ByteOrder.length_encode] at hslice ⊢
    rw [Encoding.Format.read, hslice]
    dsimp only
    rw [signExtend_encode order (hwidth _ _ rfl) hlower hupper, raw, Number.value,
      ← toUInt64_ofInt]
    rfl
  | uleb128 number =>
    rw [raw, Number.value, ofInt_natCast]
    exact number.read h
  | sleb128 number =>
    rw [Encoding.Format.read, number.read h, raw, Number.value, ← toUInt64_ofInt]
    rfl

/-! ### Targets -/

/-- The high half of an encoding is made up of the bit for indirect pointers and the bits that say
what a number is relative to. -/
theorem high_eq (encoding : UInt8) :
    encoding &&& 0xf0 = encoding &&& 0x80 ||| encoding &&& 0x70 := by
  rw [← UInt8.toNat_inj, UInt8.toNat_or, UInt8.toNat_and, UInt8.toNat_and, UInt8.toNat_and,
    ← Nat.and_or_distrib_left]
  rfl

theorem top_eq (encoding : UInt8) : encoding &&& 0x80 = (encoding &&& 0xf0) &&& 0x80 := by
  rw [UInt8.and_assoc]
  rfl

theorem modifier_eq (encoding : UInt8) :
    Encoding.modifier encoding = (encoding &&& 0xf0) &&& 0x70 := by
  rw [UInt8.and_assoc]
  rfl

/-- What a pointer leads to depends on the high four bits of its encoding. -/
theorem pointee?_eq (encoding : UInt8) (field raw : UInt64) :
    pointee? encoding field raw =
      if encoding &&& 0xf0 = 0x00 then some raw
      else if encoding &&& 0xf0 = 0x10 then some (field + raw)
      else none := by
  unfold pointee? Encoding.isIndirect Encoding.modifier
  by_cases hdirect : encoding &&& 0x80 = 0
  · rw [high_eq, hdirect, UInt8.zero_or]
    simp
  · have habsolute : encoding &&& 0xf0 ≠ 0x00 := fun h => hdirect (by rw [top_eq, h]; rfl)
    have hrelative : encoding &&& 0xf0 ≠ 0x10 := fun h => hdirect (by rw [top_eq, h]; rfl)
    rw [if_neg habsolute, if_neg hrelative]
    simp [hdirect]

namespace StoredPointer

variable {pointerSize : Nat} {encoding : UInt8}

/-- The reader finds the documented target. -/
theorem pointee?_eq_address? {format : Encoding.Format}
    (hformat : (encoding &&& 0x0f, format) ∈ formats pointerSize) (number : format.Number)
    (field : UInt64) :
    pointee? encoding field number.raw =
      (stored hformat number : StoredPointer pointerSize encoding).address? field := by
  have hsum : field + number.raw = UInt64.ofInt (field.toNat + number.value) := by
    rw [UInt64.ofInt_add, ofInt_toNat]
    rfl
  rw [pointee?_eq, hsum]
  rfl

/-- The reader shows the documented text. -/
theorem text_pointer (p : StoredPointer pointerSize encoding) (order : ByteOrder)
    (field : UInt64) (name : UInt64 → String) :
    (p.pointer order field).text name encoding = p.text name field := by
  cases p with
  | leftOut hencoding => exact if_pos hencoding
  | @stored format hformat number =>
    rw [Pointer.text, if_neg (ne_omitted_of_mem hformat), text, pointer, address?, raw]
    by_cases habsolute : encoding &&& 0xf0 = 0x00
    · rw [Encoding.isIndirect, top_eq, modifier_eq, habsolute]
      rfl
    · by_cases hrelative : encoding &&& 0xf0 = 0x10
      · rw [Encoding.isIndirect, top_eq, modifier_eq, hrelative]
        rfl
      · simp only [if_neg habsolute, if_neg hrelative]
        by_cases hindirect : encoding &&& 0x80 = 0
        · simp [Encoding.isIndirect, hindirect]
        · simp [Encoding.isIndirect, hindirect]

theorem read (hsize : pointerSize = 4 ∨ pointerSize = 8) (p : StoredPointer pointerSize encoding)
    {order : ByteOrder} {data rest : Bytes} {offset : Nat} (hle : offset ≤ data.length)
    (h : data.drop offset = p.bytes order ++ rest) (field : UInt64) :
    Pointer.read order pointerSize data offset encoding field = .ok (p.pointer order field) := by
  cases p with
  | leftOut hencoding =>
    rw [Pointer.read, if_pos hencoding]
    rfl
  | @stored format hformat number =>
    have hwidth : ∀ width signed, format = .word width signed → width ≤ 8 := by
      rintro width signed rfl
      exact width_le_of_mem hsize hformat
    rw [Pointer.read, if_neg (ne_omitted_of_mem hformat), format?_of_mem hsize hformat]
    dsimp only
    rw [number.read hwidth hle h]
    change Except.ok (Pointer.mk number.raw _ (pointee? encoding field number.raw)) = _
    rw [pointee?_eq_address? hformat]
    rfl

end StoredPointer

/-! ## Cursors before stored bytes -/

section Cursors

variable {src : Source} {c : Cursor} {bytes rest : Bytes}

/-- What is left of the record are exactly these bytes. -/
structure Rest (src : Source) (c : Cursor) (bytes : Bytes) : Prop where
  pos_le : c.pos ≤ c.limit
  limit_le : c.limit ≤ src.data.length
  left_eq : (src.data.take c.limit).drop c.pos = bytes

theorem Rest.limit_eq (h : Rest src c bytes) : c.limit = c.pos + bytes.length := by
  have hlength := congrArg List.length h.left_eq
  have hpos := h.pos_le
  have hlimit := h.limit_le
  rw [List.length_drop, List.length_take, Nat.min_eq_left hlimit] at hlength
  omega

theorem Rest.pos_le_visible (h : Rest src c bytes) : c.pos ≤ (src.data.take c.limit).length := by
  rw [List.length_take, Nat.min_eq_left h.limit_le]
  exact h.pos_le

theorem Rest.drop_eq (h : Rest src c bytes) :
    src.data.drop c.pos = bytes ++ src.data.drop c.limit := by
  have hsplit : src.data = src.data.take c.limit ++ src.data.drop c.limit :=
    (List.take_append_drop _ _).symm
  conv => lhs; rw [hsplit]
  rw [List.drop_append_of_le_length h.pos_le_visible, h.left_eq]

def Cursor.skip (c : Cursor) (len : Nat) : Cursor := { c with pos := c.pos + len }

theorem Rest.skip (h : Rest src c (bytes ++ rest)) : Rest src (c.skip bytes.length) rest where
  pos_le := by
    have hlimit := h.limit_eq
    rw [List.length_append] at hlimit
    simp only [Cursor.skip]
    omega
  limit_le := h.limit_le
  left_eq := by
    simp only [Cursor.skip]
    rw [← List.drop_drop, h.left_eq, List.drop_left]

theorem Rest.take_eq (h : Rest src c (bytes ++ rest)) :
    (src.data.drop c.pos).take bytes.length = bytes := by
  rw [h.drop_eq, List.append_assoc, List.take_left]

/-- The cursor after the piece, which is now a field. -/
def Cursor.past (src : Source) (c : Cursor) (p : Piece) : Cursor :=
  { c with
    pos := c.pos + p.bytes.length
    fields := c.fields ++ [p.field (src.addressAt c.pos)] }

def Cursor.pastAll (src : Source) (c : Cursor) (pieces : List Piece) : Cursor :=
  pieces.foldl (Cursor.past src) c

theorem Cursor.pastAll_append (src : Source) (c : Cursor) (pieces more : List Piece) :
    c.pastAll src (pieces ++ more) = (c.pastAll src pieces).pastAll src more :=
  List.foldl_append

theorem Cursor.pos_pastAll (src : Source) (c : Cursor) (pieces : List Piece) :
    (c.pastAll src pieces).pos = c.pos + (Piece.stored pieces).length := by
  induction pieces generalizing c with
  | nil => rfl
  | cons p pieces ih =>
    rw [pastAll, List.foldl_cons, ← pastAll, ih, past, Piece.stored_cons, List.length_append,
      Nat.add_assoc]

theorem Cursor.limit_pastAll (src : Source) (c : Cursor) (pieces : List Piece) :
    (c.pastAll src pieces).limit = c.limit := by
  induction pieces generalizing c with
  | nil => rfl
  | cons p pieces ih => exact ih _

theorem Cursor.fields_pastAll (src : Source) (c : Cursor) (pieces : List Piece) :
    (c.pastAll src pieces).fields = c.fields ++ Piece.fields (src.addressAt c.pos) pieces := by
  induction pieces generalizing c with
  | nil => exact (List.append_nil _).symm
  | cons p pieces ih =>
    have haddress : src.addressAt (c.past src p).pos
        = src.addressAt c.pos + UInt64.ofNat p.bytes.length := by
      rw [Source.addressAt, Source.addressAt, past, UInt64.ofNat_add, UInt64.add_assoc]
    rw [pastAll, List.foldl_cons, ← pastAll, ih, haddress, Piece.fields, past, List.append_assoc,
      List.singleton_append]

theorem Cursor.pastAll_eq (src : Source) (c : Cursor) (pieces : List Piece) :
    c.pastAll src pieces = ⟨c.pos + (Piece.stored pieces).length, c.limit,
      c.fields ++ Piece.fields (src.addressAt c.pos) pieces⟩ := by
  rw [← pos_pastAll src, ← fields_pastAll, ← limit_pastAll src c pieces]

theorem Rest.past {p : Piece} (h : Rest src c (p.bytes ++ rest)) : Rest src (c.past src p) rest :=
  ⟨h.skip.pos_le, h.skip.limit_le, h.skip.left_eq⟩

theorem Rest.pastAll {pieces : List Piece} (h : Rest src c (Piece.stored pieces ++ rest)) :
    Rest src (c.pastAll src pieces) rest := by
  induction pieces generalizing c with
  | nil => exact h
  | cons p pieces ih =>
    rw [Piece.stored_cons, List.append_assoc] at h
    exact ih h.past

end Cursors

/-! ## Basic readers -/

section Basic

variable {src : Source} {c : Cursor} {bytes rest : Bytes}

theorem exec_here : exec Reader.here c = (.ok c.pos, c) := rfl

theorem exec_visible : exec (Reader.visible src) c = (.ok (src.data.take c.limit), c) := rfl

theorem exec_advance (len : Nat) : exec (Reader.advance len) c = (.ok ⟨⟩, c.skip len) := rfl

theorem exec_take (item : Item) {len : Nat} (hlen : bytes.length = len)
    (h : Rest src c (bytes ++ rest)) :
    exec (Reader.take src item len) c = (.ok bytes, c.skip len) := by
  subst hlen
  have hlimit := h.limit_eq
  have hle : c.pos ≤ src.data.length := Nat.le_trans h.pos_le h.limit_le
  have hslice : slice? src.data c.pos bytes.length = some bytes :=
    slice?_of_drop hle (h.drop_eq.trans (List.append_assoc _ _ _))
  rw [List.length_append] at hlimit
  rw [Reader.take, exec_bind_ok (exec_get c), if_pos (by omega), hslice]
  rfl

theorem exec_byte (item : Item) {b : UInt8} (h : Rest src c (b :: rest)) :
    exec (Reader.byte src item) c = (.ok b, c.skip 1) := by
  have htake : exec (Reader.take src item 1) c = (.ok [b], c.skip 1) := exec_take item rfl h
  rw [Reader.byte, exec_bind_ok htake]
  rfl

/-- Bytes that were read since the piece began become its field. -/
theorem exec_push {p : Piece} {len : Nat} (hlen : p.bytes.length = len)
    (h : Rest src c (p.bytes ++ rest)) :
    exec (Reader.push src c.pos p.name (p.text (src.addressAt c.pos))) (c.skip len)
      = (.ok ⟨⟩, c.past src p) := by
  subst hlen
  have htake := h.take_eq
  rw [Reader.push, exec_modify]
  simp only [Cursor.skip, Cursor.past, Piece.field, Nat.add_sub_cancel_left, htake]

theorem exec_uleb128 (u : Leb128.Unsigned) (h : Rest src c (u.bytes ++ rest)) :
    exec (Reader.uleb128 src) c = (.ok (UInt64.ofNat u.value), c.skip u.bytes.length) := by
  rw [Reader.uleb128, exec_bind_ok exec_visible, exec_bind_ok exec_here, u.read h.left_eq]
  rfl

theorem Source.pointerSize_cases (src : Source) : src.pointerSize = 4 ∨ src.pointerSize = 8 := by
  rw [Source.pointerSize, Image.pointerSize]
  cases src.index.image.arch with
  | x86_64 | arm64 | powerPc64 => exact .inr rfl
  | x86 | arm | powerPc | other cpuType => exact .inl rfl

theorem exec_pointer {encoding : UInt8} (p : StoredPointer src.pointerSize encoding)
    (h : Rest src c (p.bytes src.order ++ rest)) :
    exec (Reader.pointer src encoding) c
      = (.ok (p.pointer src.order (src.addressAt c.pos)), c.skip (p.bytes src.order).length) := by
  rw [Reader.pointer, exec_bind_ok exec_here, exec_bind_ok exec_visible,
    p.read src.pointerSize_cases h.pos_le_visible h.left_eq]
  rfl

end Basic

/-! ## Readers of pieces -/

/-- Before the pieces, with `rest` after them up to the end of the record, the reader turns the
pieces into fields and gives `a`. -/
def Reads {α : Type} (src : Source) (rest : Bytes) (m : Reader α) (pieces : List Piece) (a : α) :
    Prop :=
  ∀ c, Rest src c (Piece.stored pieces ++ rest) → exec m c = (.ok a, c.pastAll src pieces)

section Pieces

variable {α β : Type} {src : Source} {rest : Bytes} {pieces more : List Piece}

theorem Reads.pure (a : α) : Reads src rest (pure a) [] a := fun _ _ => rfl

theorem Reads.bind {m : Reader α} {f : α → Reader β} {a : α} {b : β}
    (hm : Reads src (Piece.stored more ++ rest) m pieces a) (hf : Reads src rest (f a) more b) :
    Reads src rest (m >>= f) (pieces ++ more) b := by
  intro c h
  rw [Piece.stored_append, List.append_assoc] at h
  rw [exec_bind_ok (hm c h), hf _ h.pastAll, Cursor.pastAll_append]

theorem Reads.cons {m : Reader α} {f : α → Reader β} {p : Piece} {a : α} {b : β}
    (hm : Reads src (Piece.stored more ++ rest) m [p] a) (hf : Reads src rest (f a) more b) :
    Reads src rest (m >>= f) (p :: more) b :=
  hm.bind hf

/-- A part that is read from a place on, and then becomes one field. -/
theorem Reads.field {m : Nat → Reader α} {k : α → Reader β} {value : α → String} {p : Piece}
    {a : UInt64 → α} {b : β} (hvalue : ∀ address, value (a address) = p.text address)
    (hm : ∀ c, Rest src c (p.bytes ++ (Piece.stored pieces ++ rest)) →
      exec (m c.pos) c = (.ok (a (src.addressAt c.pos)), c.skip p.bytes.length))
    (hk : ∀ address, Reads src rest (k (a address)) pieces b) :
    Reads src rest (do
      let start ← Reader.here
      let x ← m start
      Reader.push src start p.name (value x)
      k x) (p :: pieces) b := by
  intro c h
  rw [Piece.stored_cons, List.append_assoc] at h
  rw [exec_bind_ok exec_here, exec_bind_ok (hm c h), hvalue, exec_bind_ok (exec_push rfl h),
    hk _ _ h.past]
  rfl

theorem reads_ulebField (name : String) (u : Leb128.Unsigned) :
    Reads src rest (Reader.ulebField src name) [.uleb128 name u] (UInt64.ofNat u.value) := by
  refine Reads.field (a := fun _ => UInt64.ofNat u.value) (p := .uleb128 name u) (fun _ => ?_)
    (fun c h => ?_) (fun _ => Reads.pure _)
  · rw [u.toNat_value]
    rfl
  · exact exec_uleb128 u h

theorem reads_encodingField (name : String) (encoding : UInt8) :
    Reads src rest (Reader.encodingField src name) [.encoding name encoding] encoding := by
  refine Reads.field (p := .encoding name encoding) (a := fun _ => encoding) (fun _ => rfl)
    (fun c h => ?_) (fun _ => Reads.pure _)
  exact exec_byte _ h

theorem reads_pointerField (name : String) {encoding : UInt8}
    (p : StoredPointer src.index.image.pointerSize encoding) :
    Reads src rest (Reader.pointerField src encoding name) [.pointer src.index name p] ⟨⟩ := by
  intro c h
  rw [Piece.stored_singleton] at h
  have htext : (p.pointer src.order (src.addressAt c.pos)).text
      (fun a => src.index.addressName a true) encoding =
        (Piece.pointer src.index name p).text (src.addressAt c.pos) := p.text_pointer _ _ _
  rw [Reader.pointerField, exec_bind_ok exec_here, exec_bind_ok (exec_pointer p h)]
  exact (congrArg (fun text => exec (Reader.push src c.pos name text) _) htext).trans
    (exec_push rfl h)

/-- The bytes up to the end of the record. -/
theorem exec_remainder {c : Cursor} (name : String) {bytes : Bytes} (h : Rest src c bytes) :
    exec (Reader.remainder src c.limit name) c
      = (.ok ⟨⟩, c.past src (.instructions name bytes)) := by
  have hend : { c with pos := max c.pos (min c.limit c.limit) } = c.skip bytes.length := by
    rw [Cursor.skip, Nat.min_self, h.limit_eq, Nat.max_eq_right (Nat.le_add_right _ _)]
  have hcount : (c.skip bytes.length).pos - c.pos = bytes.length := Nat.add_sub_cancel_left _ _
  have hbytes : Rest src c ((Piece.instructions name bytes).bytes ++ []) := by
    rwa [List.append_nil]
  rw [Reader.remainder, exec_bind_ok exec_here, exec_bind_ok (exec_modify _ _), hend,
    exec_bind_ok exec_here, hcount]
  exact exec_push rfl hbytes

theorem reads_remainder (name : String) (bytes : Bytes) :
    Reads src [] (do Reader.remainder src (← get).limit name) [.instructions name bytes] ⟨⟩ := by
  intro c h
  rw [Piece.stored_singleton, List.append_nil] at h
  rw [exec_bind_ok (exec_get c)]
  exact exec_remainder name h

theorem reads_remainder_return (name : String) (bytes : Bytes) (a : α) :
    Reads src [] (do
      Reader.remainder src (← get).limit name
      return a) [.instructions name bytes] a := by
  intro c h
  rw [Piece.stored_singleton, List.append_nil] at h
  rw [exec_bind_ok (exec_get c), exec_bind_ok (exec_remainder name h)]
  rfl

end Pieces

/-- The end of a common record, from the augmentation data on. -/
def cieEnd (src : Source) (augmentation : String) (layout : Layout) : Reader Layout :=
  match augmentationLetters? augmentation with
  | none => do
    Reader.remainder src (← get).limit "Initial Instructions"
    return layout
  | some letters => do
    let length ← Reader.ulebField src "Augmentation Data Length"
    let pos ← Reader.here
    let layout ← cieLetters src (pos + length.toNat) letters layout
    finishAugmentation src (pos + length.toNat)
    Reader.remainder src (← get).limit "Initial Instructions"
    return layout

end MachInspect.Frame
