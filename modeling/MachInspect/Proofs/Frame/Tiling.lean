-- SUMMARY: The fields of a call-frame record follow each other without a gap.
import Mathlib.Algebra.GroupWithZero.Nat
import MachInspect.Proofs.Frame.Reading

/-!
# Fields tile records

Every reader of a record moves its cursor only over bytes that it then shows as a field, and a
reader that fails leaves the cursor where its last field ended. So the fields that were read tile
the record from its start up to the cursor, whether the record could be read or not. A body that was
read in full takes the cursor to the end of the record.
-/
namespace MachInspect.Frame

/-! ## Tilings -/

section Tilings

variable {src : Source} {start middle stop : Nat} {fields more : List Field}

/-- The fields follow each other from `start` up to `stop`, and each shows the bytes of the section
at its place, under their address. -/
def Tiles (src : Source) : Nat → List Field → Nat → Prop
  | start, [], stop => start = stop
  | start, f :: rest, stop =>
    f.address = src.addressAt start ∧ slice? src.data start f.bytes.length = some f.bytes ∧
      Tiles src (start + f.bytes.length) rest stop

/-- The number of bytes that some fields show. -/
def covered (fields : List Field) : Nat := (fields.map fun f => f.bytes.length).sum

theorem covered_cons (f : Field) (fields : List Field) :
    covered (f :: fields) = f.bytes.length + covered fields := by
  simp [covered]

theorem Tiles.append (h : Tiles src start fields middle) (hmore : Tiles src middle more stop) :
    Tiles src start (fields ++ more) stop := by
  induction fields generalizing start with
  | nil =>
    obtain rfl : start = middle := h
    exact hmore
  | cons f rest ih =>
    obtain ⟨haddress, hbytes, hrest⟩ := h
    exact ⟨haddress, hbytes, ih hrest⟩

theorem Tiles.stop_eq (h : Tiles src start fields stop) : stop = start + covered fields := by
  induction fields generalizing start with
  | nil => exact h.symm
  | cons f rest ih =>
    rw [ih h.2.2, covered_cons, Nat.add_assoc]

/-- Where the field at a position stands, and that it ends inside the tiling. -/
theorem Tiles.getElem? (h : Tiles src start fields stop) {k : Nat} {f : Field}
    (hk : fields[k]? = some f) :
    f.address = src.addressAt (start + covered (fields.take k)) ∧
      slice? src.data (start + covered (fields.take k)) f.bytes.length = some f.bytes ∧
      start + covered (fields.take k) + f.bytes.length ≤ stop := by
  induction fields generalizing start k with
  | nil => simp at hk
  | cons first rest ih =>
    obtain ⟨haddress, hbytes, hrest⟩ := h
    cases k with
    | zero =>
      obtain rfl : first = f := by simpa using hk
      have hstop := hrest.stop_eq
      refine ⟨haddress, hbytes, ?_⟩
      simp only [List.take_zero, covered, List.map_nil, List.sum_nil]
      omega
    | succ k =>
      rw [List.take_succ_cons, covered_cons, ← Nat.add_assoc]
      exact ih hrest (by simpa using hk)

/-- Together the fields show the bytes from `start` up to `stop`, each of them once. -/
theorem Tiles.flatMap_bytes (h : Tiles src start fields stop) :
    fields.flatMap Field.bytes = (src.data.drop start).take (stop - start) := by
  induction fields generalizing start with
  | nil =>
    obtain rfl : start = stop := h
    simp
  | cons f rest ih =>
    obtain ⟨-, hbytes, hrest⟩ := h
    have hstop := hrest.stop_eq
    have hlength : stop - start = f.bytes.length + (stop - (start + f.bytes.length)) := by omega
    rw [List.flatMap_cons, ih hrest, hlength, List.take_add, List.drop_drop,
      ← (slice?_eq_some hbytes).2]

end Tilings

/-! ## Cursors -/

section Cursors

variable {src : Source} {start : Nat} {c : Cursor}

/-- The cursor is inside its record, and the record inside the section. -/
structure Cursor.Inside (src : Source) (c : Cursor) : Prop where
  pos_le : c.pos ≤ c.limit
  limit_le : c.limit ≤ src.data.length

theorem Cursor.Inside.length_visible (h : c.Inside src) :
    (src.data.take c.limit).length = c.limit := by
  rw [List.length_take, Nat.min_eq_left h.limit_le]

theorem Cursor.Inside.skip {len : Nat} (h : c.Inside src) (hlen : c.pos + len ≤ c.limit) :
    (c.skip len).Inside src :=
  ⟨hlen, h.limit_le⟩

/-- The fields that were read tile the record from `start` up to the cursor. -/
structure Tiled (src : Source) (start : Nat) (c : Cursor) : Prop extends c.Inside src where
  tiles : Tiles src start c.fields c.pos

/-- The bytes that the cursor has just moved over become a field. -/
theorem exec_push_skip (src : Source) (c : Cursor) (len : Nat) (name value : String) :
    exec (Reader.push src c.pos name value) (c.skip len) =
      (.ok ⟨⟩, ⟨c.pos + len, c.limit,
        c.fields ++ [⟨src.addressAt c.pos, (src.data.drop c.pos).take len, name, value⟩]⟩) := by
  rw [Reader.push, exec_modify]
  simp only [Cursor.skip, Nat.add_sub_cancel_left]

/-- Bytes that were read since the last field become one. -/
theorem exec_push_tiled {reached : Nat} (name value : String)
    (htiles : Tiles src start c.fields reached) (hle : reached ≤ c.pos) (hinside : c.Inside src) :
    ∃ c', exec (Reader.push src reached name value) c = (.ok ⟨⟩, c') ∧ Tiled src start c' ∧
      c'.limit = c.limit ∧ c'.pos = c.pos := by
  have hend : c.pos ≤ src.data.length := Nat.le_trans hinside.pos_le hinside.limit_le
  have hlength : ((src.data.drop reached).take (c.pos - reached)).length = c.pos - reached := by
    rw [List.length_take, List.length_drop]
    omega
  refine ⟨_, exec_modify _ _, ⟨⟨hinside.pos_le, hinside.limit_le⟩, htiles.append ⟨rfl, ?_, ?_⟩⟩,
    rfl, rfl⟩
  · rw [hlength, slice?, if_pos (by omega)]
  · change reached + ((src.data.drop reached).take (c.pos - reached)).length = c.pos
    omega

end Cursors

/-! ## Numbers are inside what they are read from -/

section Lengths

variable {data : Bytes} {offset : Nat}

theorem groupAt_fits {item : Item} {group : Bytes} (hoffset : offset ≤ data.length)
    (h : Leb128.groupAt item data offset = .ok group) : offset + group.length ≤ data.length := by
  have htake := ((Leb128.of_groupAt h).2 []).1
  have hlength := congrArg List.length htake
  rw [List.append_nil, List.length_take, List.length_drop] at hlength
  omega

theorem unsigned_fits {found : UInt64 × Nat} (hoffset : offset ≤ data.length)
    (h : Leb128.unsigned data offset = .ok found) : offset + found.2 ≤ data.length := by
  rw [Leb128.unsigned_eq] at h
  obtain ⟨group, hgroup, hfound⟩ := exists_ok_of_bind_ok h
  cases hfound
  exact groupAt_fits hoffset hgroup

theorem signed_fits {found : Int64 × Nat} (hoffset : offset ≤ data.length)
    (h : Leb128.signed data offset = .ok found) : offset + found.2 ≤ data.length := by
  rw [Leb128.signed_eq] at h
  obtain ⟨group, hgroup, hfound⟩ := exists_ok_of_bind_ok h
  cases hfound
  exact groupAt_fits hoffset hgroup

theorem Encoding.Format.read_fits {format : Encoding.Format} {order : ByteOrder}
    {found : UInt64 × Nat} (hoffset : offset ≤ data.length)
    (h : format.read order data offset = .ok found) : offset + found.2 ≤ data.length := by
  cases format with
  | word width signed =>
    simp only [Encoding.Format.read] at h
    cases hslice : slice? data offset width with
    | none =>
      rw [hslice] at h
      cases h
    | some bytes =>
      rw [hslice] at h
      cases h
      exact (slice?_eq_some hslice).1
  | uleb128 => exact unsigned_fits hoffset h
  | sleb128 =>
    simp only [Encoding.Format.read] at h
    cases hsigned : Leb128.signed data offset with
    | error e =>
      rw [hsigned] at h
      cases h
    | ok number =>
      rw [hsigned] at h
      cases h
      exact signed_fits hoffset hsigned

theorem Pointer.read_fits {order : ByteOrder} {pointerSize : Nat} {encoding : UInt8}
    {field : UInt64} {p : Pointer} (hoffset : offset ≤ data.length)
    (h : Pointer.read order pointerSize data offset encoding field = .ok p) :
    offset + p.length ≤ data.length := by
  unfold Pointer.read at h
  split at h
  · cases h
    exact hoffset
  · cases hformat : Encoding.format? encoding pointerSize with
    | none =>
      rw [hformat] at h
      cases h
    | some format =>
      rw [hformat] at h
      obtain ⟨found, hread, hp⟩ := exists_ok_of_bind_ok h
      cases hp
      exact format.read_fits hoffset hread

end Lengths

/-! ## Moving over bytes -/

section Moving

variable {α : Type} {src : Source} {c : Cursor}

/-- From `c` on, reading takes bytes of the record and adds no field. If it fails, it takes none. -/
def Moves (m : Reader α) (c : Cursor) : Prop :=
  (∃ e, exec m c = (.error e, c)) ∨
    ∃ a len, exec m c = (.ok a, c.skip len) ∧ c.pos + len ≤ c.limit

theorem exec_take_of_le {item : Item} {len : Nat} (hinside : c.Inside src)
    (hle : c.pos + len ≤ c.limit) :
    exec (Reader.take src item len) c = (.ok ((src.data.drop c.pos).take len), c.skip len) := by
  have hlength := hinside.limit_le
  rw [Reader.take, exec_bind_ok (exec_get c), if_pos hle, slice?, if_pos (by omega)]
  rfl

theorem exec_take_of_lt {item : Item} {len : Nat} (hlt : c.limit < c.pos + len) :
    exec (Reader.take src item len) c
      = (.error (.truncated item c.pos len (c.limit - c.pos)), c) := by
  rw [Reader.take, exec_bind_ok (exec_get c), if_neg (by omega)]
  rfl

theorem moves_take (item : Item) (len : Nat) (hinside : c.Inside src) :
    Moves (Reader.take src item len) c := by
  rcases Nat.lt_or_ge c.limit (c.pos + len) with hlt | hle
  · exact .inl ⟨_, exec_take_of_lt hlt⟩
  · exact .inr ⟨_, len, exec_take_of_le hinside hle, hle⟩

theorem moves_byte (item : Item) (hinside : c.Inside src) : Moves (Reader.byte src item) c := by
  rcases moves_take item 1 hinside with ⟨e, herror⟩ | ⟨bytes, len, hok, hle⟩
  · exact .inl ⟨e, exec_bind_error herror _⟩
  · exact .inr ⟨bytes.headD 0, len, exec_bind_ok hok _, hle⟩

/-- A number that is looked up in the bytes of the record, and then passed over. -/
theorem moves_lookUp {found : Except Error α} {length : α → Nat}
    (hfits : ∀ a, found = .ok a → c.pos + length a ≤ c.limit) :
    Moves (do
      let a ← Reader.ofExcept found
      Reader.advance (length a)
      return a) c := by
  cases found with
  | error e => exact .inl ⟨e, rfl⟩
  | ok a => exact .inr ⟨a, length a, rfl, hfits a rfl⟩

theorem Cursor.Inside.pos_le_visible (hinside : c.Inside src) :
    c.pos ≤ (src.data.take c.limit).length :=
  hinside.length_visible.symm ▸ hinside.pos_le

theorem moves_uleb128 (hinside : c.Inside src) : Moves (Reader.uleb128 src) c := by
  have hfits : ∀ found, Leb128.unsigned (src.data.take c.limit) c.pos = .ok found →
      c.pos + found.2 ≤ c.limit := fun found h =>
    hinside.length_visible ▸ unsigned_fits hinside.pos_le_visible h
  rw [Moves, Reader.uleb128, exec_bind_ok exec_visible, exec_bind_ok exec_here]
  cases hfound : Leb128.unsigned (src.data.take c.limit) c.pos with
  | error e => exact .inl ⟨e, rfl⟩
  | ok found => exact .inr ⟨found.1, found.2, rfl, hfits found hfound⟩

theorem moves_signed (hinside : c.Inside src) :
    Moves (do
      let x ← Reader.ofExcept (Leb128.signed (← Reader.visible src) c.pos)
      Reader.advance x.2
      return x) c := by
  have hfits : ∀ found, Leb128.signed (src.data.take c.limit) c.pos = .ok found →
      c.pos + found.2 ≤ c.limit := fun found h =>
    hinside.length_visible ▸ signed_fits hinside.pos_le_visible h
  rw [Moves, exec_bind_ok exec_visible]
  exact moves_lookUp hfits

theorem moves_pointer (encoding : UInt8) (hinside : c.Inside src) :
    Moves (Reader.pointer src encoding) c := by
  have hfits : ∀ p, Pointer.read src.order src.pointerSize (src.data.take c.limit) c.pos encoding
      (src.addressAt c.pos) = .ok p → c.pos + p.length ≤ c.limit := fun p h =>
    hinside.length_visible ▸ Pointer.read_fits hinside.pos_le_visible h
  rw [Moves, Reader.pointer, exec_bind_ok exec_here, exec_bind_ok exec_visible]
  exact moves_lookUp hfits

end Moving

/-! ## Readers that keep a tiling -/

section Keeping

variable {α β : Type} {src : Source} {done : Cursor → Prop}

/-- From `c`, a reader came to `c'`: the fields still tile the record, which ends where it did. -/
structure Follows (src : Source) (start : Nat) (c c' : Cursor) : Prop where
  tiled : Tiled src start c'
  limit_eq : c'.limit = c.limit
  pos_le : c.pos ≤ c'.pos

theorem Follows.trans {start : Nat} {c c' c'' : Cursor} (h : Follows src start c c')
    (h' : Follows src start c' c'') : Follows src start c c'' :=
  ⟨h'.tiled, h'.limit_eq.trans h.limit_eq, Nat.le_trans h.pos_le h'.pos_le⟩

/-- Reading keeps fields a tiling, also if it fails. After a success the cursor is as `done`
says. -/
def Keeps (src : Source) (done : Cursor → Prop) (m : Reader α) : Prop :=
  ∀ start c, Tiled src start c →
    Follows src start c (exec m c).2 ∧ ∀ a, (exec m c).1 = .ok a → done (exec m c).2

/-- Where the cursor is after a part of a record. -/
def Anywhere (_ : Cursor) : Prop := True

/-- Where the cursor is after a whole record. -/
def AtLimit (c : Cursor) : Prop := c.pos = c.limit

theorem Tiled.refl {start : Nat} {c : Cursor} (h : Tiled src start c) : Follows src start c c :=
  ⟨h, rfl, Nat.le_refl _⟩

theorem keeps_pure (a : α) : Keeps src Anywhere (pure a) :=
  fun _ _ h => ⟨h.refl, fun _ _ => trivial⟩

theorem keeps_throw (e : Error) : Keeps src done (throw e : Reader α) :=
  fun _ _ h => ⟨h.refl, fun _ hok => nomatch hok⟩

theorem Keeps.bind {m : Reader α} {f : α → Reader β} (hm : Keeps src Anywhere m)
    (hf : ∀ a, Keeps src done (f a)) : Keeps src done (m >>= f) := by
  intro start c h
  obtain ⟨hfollows, -⟩ := hm start c h
  rw [exec_bind]
  cases hexec : exec m c with
  | mk result c' =>
    rw [hexec] at hfollows
    cases result with
    | error e => exact ⟨hfollows, fun _ hok => nomatch hok⟩
    | ok a =>
      obtain ⟨hfollows', hdone⟩ := hf a start c' hfollows.tiled
      exact ⟨hfollows.trans hfollows', hdone⟩

/-- Looking at the cursor changes nothing. What it shows may be used in what follows. -/
theorem Keeps.get {f : Cursor → Reader β}
    (hf : ∀ start c, Tiled src start c → Follows src start c (exec (f c) c).2 ∧
      ∀ b, (exec (f c) c).1 = .ok b → done (exec (f c) c).2) :
    Keeps src done (get >>= f) := by
  intro start c h
  rw [exec_bind_ok (exec_get c)]
  exact hf start c h

theorem keeps_here : Keeps src Anywhere Reader.here :=
  fun _ _ h => ⟨h.refl, fun _ _ => trivial⟩

/-- Bytes that are read from a place on, and then become one field. -/
theorem Keeps.field {m : Nat → Reader α} {k : α → Reader β} {n : String} {v : α → String}
    (hm : ∀ {c : Cursor}, c.Inside src → Moves (m c.pos) c) (hk : ∀ a, Keeps src done (k a)) :
    Keeps src done (do
      let start ← Reader.here
      let x ← m start
      Reader.push src start n (v x)
      k x) := by
  intro start c h
  rw [exec_bind_ok exec_here]
  rcases hm h.toInside with ⟨e, herror⟩ | ⟨a, len, hok, hle⟩
  · rw [exec_bind_error herror]
    exact ⟨h.refl, fun _ hok => nomatch hok⟩
  · obtain ⟨c', hpush, htiled, hlimit, hpos⟩ := exec_push_tiled (c := c.skip len) n (v a)
      h.tiles (Nat.le_add_right _ _) (h.toInside.skip hle)
    have hfollows : Follows src start c c' := ⟨htiled, hlimit, hpos ▸ Nat.le_add_right _ _⟩
    obtain ⟨hfollows', hdone⟩ := hk a start c' htiled
    rw [exec_bind_ok hok, exec_bind_ok hpush]
    exact ⟨hfollows.trans hfollows', hdone⟩

theorem keeps_ulebField (name : String) : Keeps src Anywhere (Reader.ulebField src name) := by
  unfold Reader.ulebField
  exact Keeps.field (m := fun _ => Reader.uleb128 src) moves_uleb128 fun _ => keeps_pure _

theorem keeps_encodingField (name : String) :
    Keeps src Anywhere (Reader.encodingField src name) := by
  unfold Reader.encodingField
  exact Keeps.field (m := fun _ => Reader.byte src .pointerEncoding) (moves_byte _)
    fun _ => keeps_pure _

theorem keeps_pointerField (encoding : UInt8) (name : String) :
    Keeps src Anywhere (Reader.pointerField src encoding name) := by
  have hfield : Keeps src Anywhere (do
      let start ← Reader.here
      let p ← Reader.pointer src encoding
      Reader.push src start name (p.text (fun a => src.index.addressName a true) encoding)
      pure ()) :=
    Keeps.field (m := fun _ => Reader.pointer src encoding) (moves_pointer encoding)
      fun _ => keeps_pure ()
  have hlast (m : Reader Unit) : (do m; pure ()) = m := bind_pure_unit
  rw [Reader.pointerField]
  simpa only [hlast] using hfield

/-- Bytes up to a given place, or up to the end of the record if that comes first. -/
theorem exec_remainder_tiled {start : Nat} {c : Cursor} (stop : Nat) (name : String)
    (h : Tiled src start c) :
    ∃ c', exec (Reader.remainder src stop name) c = (.ok ⟨⟩, c') ∧ Follows src start c c' ∧
      c'.pos = max c.pos (min stop c.limit) := by
  have hle := h.pos_le
  have hinside : Cursor.Inside src { c with pos := max c.pos (min stop c.limit) } :=
    ⟨by simp only; omega, h.limit_le⟩
  have hpos : c.pos ≤ max c.pos (min stop c.limit) := Nat.le_max_left _ _
  obtain ⟨c', hpush, htiled, hlimit, hpos'⟩ := exec_push_tiled
    (c := { c with pos := max c.pos (min stop c.limit) }) name
    (Text.decimal (max c.pos (min stop c.limit) - c.pos) ++ " bytes") h.tiles hpos hinside
  refine ⟨c', ?_, ⟨htiled, hlimit, hpos' ▸ hpos⟩, hpos'⟩
  rw [Reader.remainder, exec_bind_ok exec_here, exec_bind_ok (exec_modify _ _),
    exec_bind_ok exec_here]
  exact hpush

theorem keeps_remainder (stop : Nat) (name : String) :
    Keeps src Anywhere (Reader.remainder src stop name) := by
  intro start c h
  obtain ⟨c', hexec, hfollows, -⟩ := exec_remainder_tiled stop name h
  rw [hexec]
  exact ⟨hfollows, fun _ _ => trivial⟩

/-- What is left of the record as its last field. -/
theorem keeps_remainder_limit (name : String) :
    Keeps src AtLimit (do Reader.remainder src (← get).limit name) := by
  refine Keeps.get fun start c h => ?_
  obtain ⟨c', hexec, hfollows, hpos⟩ := exec_remainder_tiled c.limit name h
  have hle := h.pos_le
  rw [hexec]
  refine ⟨hfollows, fun _ _ => ?_⟩
  change c'.pos = c'.limit
  rw [hpos, hfollows.limit_eq]
  omega

theorem keeps_remainder_return (name : String) (a : α) :
    Keeps src AtLimit (do
      Reader.remainder src (← get).limit name
      return a) := by
  intro start c h
  obtain ⟨hfollows, hdone⟩ := keeps_remainder_limit name start c h
  obtain ⟨c', hexec, -, -⟩ := exec_remainder_tiled c.limit name h
  rw [exec_bind_ok (exec_get c), hexec] at hfollows hdone
  rw [exec_bind_ok (exec_get c), exec_bind_ok hexec]
  exact ⟨hfollows, fun _ _ => hdone _ rfl⟩

end Keeping

/-! ## Bodies -/

section Bodies

variable {β : Type} {src : Source}

theorem keeps_checkAugmentation (stop : Nat) : Keeps src Anywhere (checkAugmentation stop) := by
  refine keeps_here.bind fun pos => ?_
  split
  · exact keeps_throw _
  · exact keeps_pure _

theorem keeps_unknownAugmentation (stop : Nat) :
    Keeps src Anywhere (unknownAugmentation src stop) := by
  refine (keeps_checkAugmentation stop).bind fun _ => keeps_here.bind fun pos => ?_
  split
  · exact keeps_remainder _ _
  · exact keeps_pure _

theorem keeps_finishAugmentation (stop : Nat) :
    Keeps src Anywhere (finishAugmentation src stop) := by
  refine (keeps_checkAugmentation stop).bind fun _ => Keeps.get fun start c h => ?_
  split
  · split
    · exact keeps_throw _ start c h
    · exact keeps_remainder _ _ start c h
  · exact keeps_pure _ start c h

theorem keeps_cieLetters (stop : Nat) (letters : List Char) (layout : Layout) :
    Keeps src Anywhere (cieLetters src stop letters layout) := by
  fun_induction cieLetters src stop letters layout with
  | case1 layout => exact keeps_pure _
  | case2 layout rest ih =>
    exact (keeps_encodingField _).bind fun encoding =>
      (keeps_pointerField encoding _).bind fun _ => ih
  | case3 layout rest ih => exact (keeps_encodingField _).bind ih
  | case4 layout rest ih => exact (keeps_encodingField _).bind ih
  | case5 letter rest layout => exact (keeps_unknownAugmentation stop).bind fun _ => keeps_pure _

theorem keeps_fdeLetters (layout : Layout) (stop : Nat) (letters : List Char) :
    Keeps src Anywhere (fdeLetters src layout stop letters) := by
  fun_induction fdeLetters src layout stop letters with
  | case1 => exact keeps_pure _
  | case2 rest ih => exact ih
  | case3 rest ih => exact ih
  | case4 rest ih => exact (keeps_pointerField _ _).bind fun _ => ih
  | case5 letter rest => exact keeps_unknownAugmentation stop

/-- A signed number, read by hand, and what comes after it. -/
theorem Keeps.signedField {done : Cursor → Prop} {name : String} {k : Reader β}
    (hk : Keeps src done k) :
    Keeps src done (do
      let start ← Reader.here
      let x ← Reader.ofExcept (Leb128.signed (← Reader.visible src) start)
      Reader.advance x.2
      Reader.push src start name (Text.signedDecimal x.1.toInt)
      k) := by
  have hfield := Keeps.field (n := name)
    (m := fun start => do
      let x ← Reader.ofExcept (Leb128.signed (← Reader.visible src) start)
      Reader.advance x.2
      return x)
    (v := fun x => Text.signedDecimal x.1.toInt) moves_signed fun _ => hk
  simpa only [bind_assoc, pure_bind] using hfield

/-- A part that only some records have, before what all of them have. -/
theorem Keeps.optional {done : Cursor → Prop} {p : Prop} [Decidable p] {long short : Reader β}
    (hlong : Keeps src done short → Keeps src done long) (hshort : Keeps src done short) :
    Keeps src done (if p then long else short) := by
  split
  · exact hlong hshort
  · exact hshort

theorem keeps_augmentationField : Keeps src Anywhere (augmentationField src) := by
  refine Keeps.get fun start c h => ?_
  generalize ((src.data.take c.limit).drop c.pos).takeWhile (· ≠ 0) = text
  dsimp only
  split
  · rename_i hlt
    have hinside : (c.skip (text.length + 1)).Inside src := h.toInside.skip hlt
    obtain ⟨c', hpush, htiled, hlimit, hpos⟩ := exec_push_tiled (c := c.skip (text.length + 1))
      "Augmentation String" (Text.Utf8.lossy text) h.tiles (Nat.le_add_right _ _) hinside
    rw [exec_bind_ok (exec_advance _), exec_bind_ok hpush]
    exact ⟨⟨htiled, hlimit, hpos ▸ Nat.le_add_right _ _⟩, fun _ _ => trivial⟩
  · exact keeps_throw _ start c h

theorem keeps_cieEnd (augmentation : String) (layout : Layout) :
    Keeps src AtLimit (cieEnd src augmentation layout) := by
  unfold cieEnd
  split
  · exact keeps_remainder_return _ _
  · exact (keeps_ulebField _).bind fun length => keeps_here.bind fun pos =>
      (keeps_cieLetters _ _ _).bind fun layout => (keeps_finishAugmentation _).bind fun _ =>
        keeps_remainder_return _ _

theorem keeps_cieBody : Keeps src AtLimit (cieBody src) := by
  simp only [cieBody, pure_bind]
  refine Keeps.field (m := fun _ => Reader.byte src .cieVersion) (moves_byte _)
    fun version => keeps_augmentationField.bind fun augmentation => ?_
  refine Keeps.optional (fun hrest => Keeps.field
    (m := fun _ => Reader.take src .ehData src.pointerSize) (moves_take _ _) fun _ => hrest) ?_
  refine ((keeps_ulebField _).bind fun _ => keeps_pure _).bind fun _ => Keeps.signedField ?_
  by_cases hversion : version < 3
  · simp only [if_pos hversion]
    exact Keeps.field (m := fun _ => Reader.byte src .returnRegister) (moves_byte _)
      fun register => keeps_cieEnd _ _
  · simp only [if_neg hversion]
    exact Keeps.field (m := fun _ => Reader.uleb128 src) moves_uleb128
      fun register => keeps_cieEnd _ _

theorem keeps_fdeBody (layout : Layout) : Keeps src AtLimit (fdeBody src layout) := by
  simp only [fdeBody]
  refine (keeps_pointerField _ _).bind fun _ => ?_
  refine Keeps.field (m := fun _ => Reader.pointer src (Encoding.base layout.fdeEncoding))
    (moves_pointer _) fun range => ?_
  split
  · exact keeps_remainder_limit _
  · exact (keeps_ulebField _).bind fun length => keeps_here.bind fun pos =>
      (keeps_fdeLetters _ _ _).bind fun _ => (keeps_finishAugmentation _).bind fun _ =>
        keeps_remainder_limit _

end Bodies

end MachInspect.Frame
