-- SUMMARY: What stands at a record start, said of the bytes, and the record read from there.
import MachInspect.Proofs.Frame.Tiling

/-!
# Record starts

Length, end and identifier of a record are numbers at fixed places after its start. `HeadAt` says
what `head` makes of them: a length that cannot be used ends the walk, and otherwise the end that it
declares decides where the record stops and where the next one starts, which is always further on.
A record whose body is read from there has its fields tiled, whatever the body holds.
-/
namespace MachInspect.Frame

/-! ## Numbers at a record start -/

namespace Source

/-- The number in the `width` bytes at `offset`. -/
def numberAt (src : Source) (offset width : Nat) : Nat :=
  src.order.value ((src.data.drop offset).take width)

/-- The identifier comes after the length, which takes four bytes, or twelve if it is extended. -/
def idStart (src : Source) (offset : Nat) : Nat :=
  if src.numberAt offset 4 = extendedMark then offset + 12 else offset + 4

/-- How many bytes after its length the record at `offset` declares. -/
def declaredLength (src : Source) (offset : Nat) : Nat :=
  if src.numberAt offset 4 = extendedMark then src.numberAt (offset + 4) 8
  else src.numberAt offset 4

/-- Where the record at `offset` ends by its own account. -/
def declaredEnd (src : Source) (offset : Nat) : Nat :=
  src.idStart offset + src.declaredLength offset

/-- The identifier of the record at `offset`. -/
def idAt (src : Source) (offset : Nat) : Nat := src.numberAt (src.idStart offset) 4

/-- A whole length stands at `offset`, and it is zero. -/
def ZeroAt (src : Source) (offset : Nat) : Prop :=
  src.idStart offset ≤ src.data.length ∧ src.declaredLength offset = 0

theorem add_four_le_idStart (src : Source) (offset : Nat) : offset + 4 ≤ src.idStart offset := by
  unfold idStart
  split <;> omega

theorem pointerSize_pos (src : Source) : 0 < src.pointerSize := by
  unfold pointerSize Image.pointerSize
  cases src.index.image.arch <;> simp [Arch.pointerSize]

end Source

theorem Source.numberAt_lt (src : Source) (offset width : Nat) :
    src.numberAt offset width < 256 ^ width :=
  Nat.lt_of_lt_of_le (ByteOrder.value_lt _ _) (Nat.pow_le_pow_right (by decide) (List.length_take_le _ _))

theorem le_aligned {size : Nat} (hsize : 0 < size) (offset : Nat) :
    offset ≤ aligned size offset := by
  have hdiv := Nat.div_add_mod (offset + size - 1) size
  have hmod := Nat.mod_lt (offset + size - 1) hsize
  rw [aligned, Nat.mul_comm]
  omega

/-! ## Lengths -/

section Lengths

variable {src : Source} {offset : Nat}

/-- The cursor at the start of a record, whose end is not known yet. -/
def startCursor (src : Source) (offset : Nat) : Cursor := ⟨offset, src.data.length, []⟩

theorem tiled_startCursor (hoffset : offset ≤ src.data.length) :
    Tiled src offset (startCursor src offset) :=
  ⟨⟨hoffset, Nat.le_refl _⟩, rfl⟩

/-- A length that is cut off. -/
theorem exec_lengthFields_error (hoffset : offset ≤ src.data.length)
    (hshort : src.data.length < src.idStart offset) :
    ∃ e c, exec (lengthFields src) (startCursor src offset) = (.error e, c) := by
  have htiled := tiled_startCursor hoffset
  have hvalue : src.order.value ((src.data.drop (startCursor src offset).pos).take 4)
      = src.numberAt offset 4 := rfl
  rw [lengthFields, exec_bind_ok exec_here]
  rcases Nat.lt_or_ge src.data.length (offset + 4) with hlt | hle
  · exact ⟨_, _, exec_bind_error (exec_take_of_lt hlt) _⟩
  · rw [exec_bind_ok (exec_take_of_le htiled.toInside hle)]
    -- Only an extended length can be cut off after its first four bytes.
    have hextended : src.numberAt offset 4 = extendedMark ∧ src.data.length < offset + 12 := by
      unfold Source.idStart at hshort
      split at hshort
      · exact ⟨‹_›, hshort⟩
      · omega
    obtain ⟨hmark, hlong⟩ := hextended
    obtain ⟨c, hpush, -, hlimit, hpos⟩ := exec_push_tiled
      (c := (startCursor src offset).skip 4) "Length" "extended" htiled.tiles
      (Nat.le_add_right _ _) (htiled.toInside.skip hle)
    have hlt : c.limit < c.pos + 8 := by
      rw [hlimit, hpos]
      exact hlong
    dsimp only
    rw [hvalue, if_pos hmark, exec_bind_ok hpush, exec_bind_ok exec_here]
    exact ⟨_, _, exec_bind_error (exec_take_of_lt hlt) _⟩

/-- A whole length. -/
theorem exec_lengthFields_ok (hwhole : src.idStart offset ≤ src.data.length) :
    ∃ c, exec (lengthFields src) (startCursor src offset) = (.ok (src.declaredLength offset), c) ∧
      Tiled src offset c ∧ c.limit = src.data.length ∧ c.pos = src.idStart offset := by
  have hle : offset + 4 ≤ src.data.length :=
    Nat.le_trans (src.add_four_le_idStart offset) hwhole
  have htiled : Tiled src offset (startCursor src offset) := tiled_startCursor (by omega)
  have hinside := htiled.toInside.skip hle
  have hvalue : src.order.value ((src.data.drop (startCursor src offset).pos).take 4)
      = src.numberAt offset 4 := rfl
  rw [lengthFields, exec_bind_ok exec_here, exec_bind_ok (exec_take_of_le htiled.toInside hle)]
  dsimp only
  rw [hvalue]
  by_cases hmark : src.numberAt offset 4 = extendedMark
  · have hlength : src.declaredLength offset = src.numberAt (offset + 4) 8 := if_pos hmark
    have hid : src.idStart offset = offset + 12 := if_pos hmark
    obtain ⟨c, hpush, htiled', hlimit, hpos⟩ := exec_push_tiled
      (c := (startCursor src offset).skip 4) "Length" "extended" htiled.tiles
      (Nat.le_add_right _ _) hinside
    have hpos' : c.pos = offset + 4 := hpos
    have hle' : c.pos + 8 ≤ c.limit := by
      rw [hpos', hlimit]
      exact hid ▸ hwhole
    have hvalue' : src.order.value ((src.data.drop c.pos).take 8)
        = src.declaredLength offset := by
      rw [hlength, hpos', Source.numberAt]
    obtain ⟨c', hpush', htiled'', hlimit', hpos''⟩ := exec_push_tiled (c := c.skip 8)
      "Extended Length" (Text.decimal (src.declaredLength offset)) htiled'.tiles
      (Nat.le_add_right _ _) (htiled'.toInside.skip hle')
    refine ⟨c', ?_, htiled'', hlimit'.trans hlimit, ?_⟩
    · rw [if_pos hmark, exec_bind_ok hpush, exec_bind_ok exec_here,
        exec_bind_ok (exec_take_of_le htiled'.toInside hle'), hvalue', exec_bind_ok hpush']
      rfl
    · rw [hpos'', hid]
      exact congrArg (· + 8) hpos'
  · have hlength : src.declaredLength offset = src.numberAt offset 4 := if_neg hmark
    have hid : src.idStart offset = offset + 4 := if_neg hmark
    obtain ⟨c, hpush, htiled', hlimit, hpos⟩ := exec_push_tiled
      (c := (startCursor src offset).skip 4) "Length" (Text.decimal (src.numberAt offset 4))
      htiled.tiles (Nat.le_add_right _ _) hinside
    refine ⟨c, ?_, htiled', hlimit, hpos.trans hid.symm⟩
    rw [if_neg hmark, exec_bind_ok hpush, hlength]
    rfl

/-- The fields of the length of the record at `offset`. -/
def Source.lengthShown (src : Source) (offset : Nat) : List Field :=
  let first := (src.data.drop offset).take 4
  let second := (src.data.drop (offset + 4)).take 8
  let length := Text.decimal (src.declaredLength offset)
  if src.numberAt offset 4 = extendedMark then
    [⟨src.addressAt offset, first, "Length", "extended"⟩,
     ⟨src.addressAt (offset + 4), second, "Extended Length", length⟩]
  else [⟨src.addressAt offset, first, "Length", length⟩]

/-- A whole length, with the fields that show it. -/
theorem exec_lengthFields_shown (hwhole : src.idStart offset ≤ src.data.length) :
    exec (lengthFields src) (startCursor src offset) =
      (.ok (src.declaredLength offset),
        ⟨src.idStart offset, src.data.length, src.lengthShown offset⟩) := by
  have hle : offset + 4 ≤ src.data.length :=
    Nat.le_trans (src.add_four_le_idStart offset) hwhole
  have hinside : (startCursor src offset).Inside src := (tiled_startCursor (by omega)).toInside
  have hvalue : src.order.value ((src.data.drop (startCursor src offset).pos).take 4)
      = src.numberAt offset 4 := rfl
  rw [lengthFields, exec_bind_ok exec_here, exec_bind_ok (exec_take_of_le hinside hle)]
  dsimp only
  rw [hvalue]
  by_cases hmark : src.numberAt offset 4 = extendedMark
  · have hlength : src.declaredLength offset = src.numberAt (offset + 4) 8 := if_pos hmark
    have hid : src.idStart offset = offset + 12 := if_pos hmark
    obtain ⟨c, hc, hpush⟩ : ∃ c, c = ⟨offset + 4, src.data.length, [⟨src.addressAt offset,
        (src.data.drop offset).take 4, "Length", "extended"⟩]⟩ ∧
        exec (Reader.push src (startCursor src offset).pos "Length" "extended")
          ((startCursor src offset).skip 4) = (.ok ⟨⟩, c) :=
      ⟨_, rfl, exec_push_skip src (startCursor src offset) 4 _ _⟩
    have hinside' : c.Inside src := by
      rw [hc]
      exact ⟨hle, Nat.le_refl _⟩
    have hle' : c.pos + 8 ≤ c.limit := by
      rw [hc]
      exact hid ▸ hwhole
    have hvalue' : src.order.value ((src.data.drop c.pos).take 8) = src.declaredLength offset := by
      rw [hc, hlength, Source.numberAt]
    rw [if_pos hmark, exec_bind_ok hpush, exec_bind_ok exec_here,
      exec_bind_ok (exec_take_of_le hinside' hle'), hvalue',
      exec_bind_ok (exec_push_skip _ _ _ _ _), Source.lengthShown, if_pos hmark, hid, hc]
    rfl
  · have hlength : src.declaredLength offset = src.numberAt offset 4 := if_neg hmark
    have hid : src.idStart offset = offset + 4 := if_neg hmark
    rw [if_neg hmark, exec_bind_ok (exec_push_skip _ _ _ _ _), Source.lengthShown, if_neg hmark,
      hid, hlength]
    rfl

end Lengths

/-! ## Heads -/

section Heads

variable {src : Source} {offset : Nat}

/-- Where the walk goes on after the record at `offset`. -/
def Source.nextStart (src : Source) (offset : Nat) : Nat :=
  aligned src.pointerSize (src.declaredEnd offset)

/-- What the head of the record at `offset` is, by the numbers that stand there. -/
inductive HeadAt (src : Source) (offset : Nat) : Head → Prop where
  /-- The length is cut off, or the end that it declares is no offset. -/
  | unusable (warning : String)
      (unusable : src.data.length < src.idStart offset ∨ 2 ^ 64 ≤ src.declaredEnd offset)
      (nonzero : ¬ src.ZeroAt offset) : HeadAt src offset (.stop (some warning))
  | zero (zero : src.ZeroAt offset) : HeadAt src offset (.stop none)
  /-- The identifier is not in the record, or not in the section. -/
  | nameless (warning : String)
      (short : min (src.declaredEnd offset) src.data.length < src.idStart offset + 4)
      (nonzero : ¬ src.ZeroAt offset) : HeadAt src offset (.skip warning (src.nextStart offset))
  | body {c : Cursor} {id : UInt32} (nonzero : ¬ src.ZeroAt offset)
      (id_eq : id.toNat = src.idAt offset)
      (tiles : Tiles src offset c.fields (src.idStart offset))
      (pos_eq : c.pos = src.idStart offset + 4)
      (limit_eq : c.limit = min (src.declaredEnd offset) src.data.length)
      (pos_le : c.pos ≤ c.limit) :
      HeadAt src offset
        (.body c id (src.idStart offset) (src.declaredEnd offset) (src.nextStart offset))

theorem headAt_head (hoffset : offset ≤ src.data.length) : HeadAt src offset (head src offset) := by
  unfold head
  rcases Nat.lt_or_ge src.data.length (src.idStart offset) with hshort | hwhole
  · obtain ⟨e, c, hexec⟩ := exec_lengthFields_error hoffset hshort
    have hexec' : (lengthFields src).run.run ⟨offset, src.data.length, []⟩ = (.error e, c) := hexec
    simp only [hexec']
    exact .unusable _ (.inl hshort) fun hzero => Nat.not_le_of_lt hshort hzero.1
  · obtain ⟨c, hexec, htiled, hlimit, hpos⟩ := exec_lengthFields_ok hwhole
    have hexec' : (lengthFields src).run.run ⟨offset, src.data.length, []⟩
        = (.ok (src.declaredLength offset), c) := hexec
    have hend : c.pos + src.declaredLength offset = src.declaredEnd offset := by
      rw [hpos, Source.declaredEnd]
    simp only [hexec', hend]
    by_cases hzero : src.declaredLength offset = 0
    · rw [if_pos hzero]
      exact .zero ⟨hwhole, hzero⟩
    · have hnonzero : ¬ src.ZeroAt offset := fun h => hzero h.2
      rw [if_neg hzero]
      by_cases hlarge : 2 ^ 64 ≤ src.declaredEnd offset
      · rw [if_pos hlarge]
        exact .unusable _ (.inr hlarge) hnonzero
      · rw [if_neg hlarge]
        have hinside : Cursor.Inside src
            { c with limit := min (src.declaredEnd offset) src.data.length } := by
          refine ⟨?_, Nat.min_le_right _ _⟩
          simp only [← hend]
          omega
        rcases Nat.lt_or_ge (min (src.declaredEnd offset) src.data.length)
          (src.idStart offset + 4) with hlt | hle
        · have htake : (Reader.take src .cieId 4).run.run
              { c with limit := min (src.declaredEnd offset) src.data.length } = (.error _, _) :=
            exec_take_of_lt (by simp only [hpos]; exact hlt)
          simp only [htake]
          exact .nameless _ hlt hnonzero
        · have htake : (Reader.take src .cieId 4).run.run
              { c with limit := min (src.declaredEnd offset) src.data.length } = (.ok _, _) :=
            exec_take_of_le hinside (by simp only [hpos]; exact hle)
          simp only [htake]
          rw [hpos]
          refine .body hnonzero ?_ (hpos ▸ htiled.tiles) rfl rfl hle
          exact UInt32.toNat_ofNat_of_lt' (src.numberAt_lt _ 4)

theorem fields_of_take {item : Item} {len : Nat} {bytes : Bytes} {c c' : Cursor}
    (h : exec (Reader.take src item len) c = (.ok bytes, c')) : c'.fields = c.fields := by
  rw [Reader.take, exec_bind_ok (exec_get c)] at h
  split at h
  · split at h
    · cases h
      rfl
    · cases h
  · cases h

/-- Up to its identifier, a record has the fields of its length. -/
theorem fields_of_head {c : Cursor} {id : UInt32} {idStart declared next : Nat}
    (hoffset : offset ≤ src.data.length)
    (h : head src offset = .body c id idStart declared next) :
    c.fields = src.lengthShown offset := by
  unfold head at h
  rcases Nat.lt_or_ge src.data.length (src.idStart offset) with hshort | hwhole
  · obtain ⟨e, c', hexec⟩ := exec_lengthFields_error hoffset hshort
    have hexec' : (lengthFields src).run.run ⟨offset, src.data.length, []⟩ = (.error e, c') := hexec
    simp only [hexec'] at h
    cases h
  · have hexec : (lengthFields src).run.run ⟨offset, src.data.length, []⟩ = _ :=
      exec_lengthFields_shown hwhole
    simp only [hexec] at h
    split at h
    · cases h
    split at h
    · cases h
    split at h
    · cases h
    next bytes c' htake =>
      cases h
      exact fields_of_take htake

/-- The walk moves on. -/
theorem lt_nextStart (src : Source) (offset : Nat) : offset < src.nextStart offset := by
  have hid := src.add_four_le_idStart offset
  have hnext := le_aligned src.pointerSize_pos (src.declaredEnd offset)
  rw [Source.declaredEnd] at hnext
  rw [Source.nextStart, Source.declaredEnd]
  omega

end Heads

/-! ## Records -/

section Records

variable {α : Type} {src : Source} {offset : Nat}

/-- The fields tile the record from its start up to `stop`, which is inside the record and inside
the section. They take in its length and its identifier at least, and all of it if nothing went
wrong. -/
structure Record.TiledTo (src : Source) (r : Record) (stop : Nat) : Prop where
  tiles : Tiles src r.offset r.fields stop
  id_le : src.idStart r.offset + 4 ≤ stop
  stop_le_end : stop ≤ src.declaredEnd r.offset
  stop_le_length : stop ≤ src.data.length
  complete : r.error = none → stop = src.declaredEnd r.offset

theorem of_failure?_checkExtent {declared : Nat} {result : Except Error α}
    (h : failure? (checkExtent src declared result) = none) :
    (∃ a, result = .ok a) ∧ declared ≤ src.data.length := by
  cases result with
  | error e => cases h
  | ok a =>
    unfold checkExtent at h
    dsimp only at h
    split at h
    · cases h
    · exact ⟨⟨a, rfl⟩, by omega⟩

/-- A record whose body keeps a tiling. -/
theorem tiledTo_of_keeps {body : Reader α} {c : Cursor} {id : UInt32} {idStart declared next : Nat}
    (hbody : Keeps src AtLimit body) (hhead : HeadAt src offset (.body c id idStart declared next))
    (kind : RecordKind) (number : Nat) (name text : String) :
    let read := exec (do Reader.push src idStart name text; body) c
    Record.TiledTo src ⟨kind, number, offset, src.addressAt offset, read.2.fields,
      failure? (checkExtent src declared read.1)⟩ read.2.pos := by
  cases hhead with
  | body nonzero id_eq tiles pos_eq limit_eq pos_le =>
    have hinside : c.Inside src := ⟨pos_le, limit_eq ▸ Nat.min_le_right _ _⟩
    obtain ⟨c', hpush, htiled, hlimit, hpos⟩ := exec_push_tiled name text tiles
      (pos_eq ▸ Nat.le_add_right _ _) hinside
    obtain ⟨hfollows, hdone⟩ := hbody offset c' htiled
    have hend : (exec body c').2.limit = min (src.declaredEnd offset) src.data.length :=
      hfollows.limit_eq.trans (hlimit.trans limit_eq)
    have hstop := hend ▸ hfollows.tiled.pos_le
    rw [exec_bind_ok hpush]
    refine ⟨hfollows.tiled.tiles, ?_, Nat.le_trans hstop (Nat.min_le_left _ _),
      Nat.le_trans hstop (Nat.min_le_right _ _), fun hnone => ?_⟩
    · rw [← pos_eq, ← hpos]
      exact hfollows.pos_le
    · obtain ⟨⟨a, hok⟩, hdeclared⟩ := of_failure?_checkExtent hnone
      have hatLimit : (exec body c').2.pos = (exec body c').2.limit := hdone a hok
      rw [hatLimit, hend, Nat.min_eq_left hdeclared]

end Records

end MachInspect.Frame
