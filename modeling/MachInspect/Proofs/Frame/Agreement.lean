-- SUMMARY: Readers of a record see only the bytes of the section up to the end of the record.
import MachInspect.Proofs.Frame.Tiling

/-!
# Readers and later bytes

Two sections that agree on their first bytes are read alike as far as these bytes go: a reader whose
record ends there gives the same result and the same fields on both, also when it fails. `Alike`
says this of a pair of readers. Whoever reads in sequence has to stay inside the record, which is
what `Keeps` is about, so the rule for sequences takes it along.
-/
namespace MachInspect.Frame

/-! ## Sections that agree -/

section Agreement

variable {src : Source} {data : Bytes} {b start len : Nat} {c : Cursor}

/-- The same section with other bytes. -/
def Source.withData (src : Source) (data : Bytes) : Source := { src with data }

@[simp] theorem Source.addressAt_withData (offset : Nat) :
    (src.withData data).addressAt offset = src.addressAt offset := rfl

/-- The first `b` bytes of the section are those of `data`. -/
structure Source.Agrees (src : Source) (b : Nat) (data : Bytes) : Prop where
  take_eq : src.data.take b = data.take b
  le_length : b ≤ src.data.length
  le_length_data : b ≤ data.length

theorem Source.Agrees.visible_eq (h : src.Agrees b data) {limit : Nat} (hlimit : limit ≤ b) :
    src.data.take limit = data.take limit := by
  have htake := congrArg (List.take limit) h.take_eq
  rwa [List.take_take, List.take_take, Nat.min_eq_left hlimit] at htake

/-- Bytes that end by `b` are the same. -/
theorem Source.Agrees.bytes_eq (h : src.Agrees b data) (hle : start + len ≤ b) :
    (src.data.drop start).take len = (data.drop start).take len := by
  have hdrop := congrArg (List.drop start) (h.visible_eq hle)
  rwa [List.drop_take, List.drop_take, Nat.add_sub_cancel_left] at hdrop

theorem exec_take_withData (h : src.Agrees b data) (hlimit : c.limit ≤ b) (item : Item)
    (len : Nat) :
    exec (Reader.take src item len) c = exec (Reader.take (src.withData data) item len) c := by
  rcases Nat.lt_or_ge c.limit (c.pos + len) with hlt | hle
  · rw [exec_take_of_lt hlt, exec_take_of_lt hlt]
  · have hslice : slice? src.data c.pos len = slice? data c.pos len := by
      have hlength := h.le_length
      have hlength' := h.le_length_data
      rw [slice?, slice?, if_pos (by omega), if_pos (by omega), h.bytes_eq (by omega)]
    rw [Reader.take, exec_bind_ok (exec_get c), if_pos hle, hslice, Reader.take,
      exec_bind_ok (exec_get c), if_pos hle]
    rfl

theorem exec_byte_withData (h : src.Agrees b data) (hlimit : c.limit ≤ b) (item : Item) :
    exec (Reader.byte src item) c = exec (Reader.byte (src.withData data) item) c := by
  rw [Reader.byte, Reader.byte, exec_bind, exec_take_withData h hlimit, exec_bind]

theorem exec_visible_withData (h : src.Agrees b data) (hlimit : c.limit ≤ b) :
    exec (Reader.visible src) c = exec (Reader.visible (src.withData data)) c := by
  rw [exec_visible, exec_visible, h.visible_eq hlimit]
  rfl

theorem exec_uleb128_withData (h : src.Agrees b data) (hlimit : c.limit ≤ b) :
    exec (Reader.uleb128 src) c = exec (Reader.uleb128 (src.withData data)) c := by
  rw [Reader.uleb128, Reader.uleb128, exec_bind, exec_visible_withData h hlimit, exec_bind]

theorem exec_signed_withData (h : src.Agrees b data) (hlimit : c.limit ≤ b) :
    exec (do
      let x ← Reader.ofExcept (Leb128.signed (← Reader.visible src) c.pos)
      Reader.advance x.2
      return x) c =
    exec (do
      let x ← Reader.ofExcept (Leb128.signed (← Reader.visible (src.withData data)) c.pos)
      Reader.advance x.2
      return x) c := by
  rw [exec_bind, exec_visible_withData h hlimit, exec_bind]

theorem exec_pointer_withData (h : src.Agrees b data) (hlimit : c.limit ≤ b) (encoding : UInt8) :
    exec (Reader.pointer src encoding) c =
      exec (Reader.pointer (src.withData data) encoding) c := by
  rw [Reader.pointer, Reader.pointer, exec_bind_ok exec_here, exec_bind_ok exec_here, exec_bind,
    exec_visible_withData h hlimit, exec_bind]
  rfl

theorem exec_push_withData (h : src.Agrees b data) (hstart : start ≤ c.pos) (hpos : c.pos ≤ b)
    (name value : String) :
    exec (Reader.push src start name value) c =
      exec (Reader.push (src.withData data) start name value) c := by
  have hend : start + (c.pos - start) ≤ b := by omega
  have hbytes := h.bytes_eq hend
  rw [Reader.push, Reader.push, exec_modify, exec_modify, hbytes]
  rfl

end Agreement

/-! ## Readers that read alike -/

section Alike

variable {α β : Type} {src : Source} {data : Bytes} {b : Nat}

/-- In a record that ends by `b`, both readers give the same result and come to the same cursor. -/
def Alike (src : Source) (b : Nat) (m r : Reader α) : Prop :=
  ∀ start c, Tiled src start c → c.limit ≤ b → exec m c = exec r c

theorem Alike.refl (m : Reader α) : Alike src b m m := fun _ _ _ _ => rfl

theorem Alike.bind {m r : Reader α} {f g : α → Reader β} (hkeeps : Keeps src Anywhere m)
    (hm : Alike src b m r) (hf : ∀ a, Alike src b (f a) (g a)) :
    Alike src b (m >>= f) (r >>= g) := by
  intro start c h hlimit
  obtain ⟨hfollows, -⟩ := hkeeps start c h
  rw [exec_bind, exec_bind, ← hm start c h hlimit]
  cases hexec : exec m c with
  | mk result c' =>
    rw [hexec] at hfollows
    cases result with
    | error e => rfl
    | ok a => exact hf a start c' hfollows.tiled (hfollows.limit_eq ▸ hlimit)

theorem Alike.get {f g : Cursor → Reader β}
    (hf : ∀ start c, Tiled src start c → c.limit ≤ b → exec (f c) c = exec (g c) c) :
    Alike src b (get >>= f) (get >>= g) := by
  intro start c h hlimit
  rw [exec_bind_ok (exec_get c), exec_bind_ok (exec_get c)]
  exact hf start c h hlimit

/-- Bytes that are read from a place on, and then become one field. -/
theorem Alike.field (hagrees : src.Agrees b data) {m r : Nat → Reader α} {k l : α → Reader β}
    {n : String} {v : α → String}
    (hmoves : ∀ {c : Cursor}, c.Inside src → Moves (m c.pos) c)
    (hm : ∀ {c : Cursor}, c.limit ≤ b → exec (m c.pos) c = exec (r c.pos) c)
    (hk : ∀ a, Alike src b (k a) (l a)) :
    Alike src b
      (do
        let start ← Reader.here
        let x ← m start
        Reader.push src start n (v x)
        k x)
      (do
        let start ← Reader.here
        let x ← r start
        Reader.push (src.withData data) start n (v x)
        l x) := by
  intro start c h hlimit
  rw [exec_bind_ok exec_here, exec_bind_ok exec_here]
  have hsame := hm hlimit
  rcases hmoves h.toInside with ⟨e, herror⟩ | ⟨a, len, hok, hle⟩
  · rw [exec_bind_error herror, exec_bind_error (hsame.symm.trans herror)]
  · obtain ⟨c', hpush, htiled, hlimit', -⟩ := exec_push_tiled (c := c.skip len) n (v a)
      h.tiles (Nat.le_add_right _ _) (h.toInside.skip hle)
    have hpush' := exec_push_withData (c := c.skip len) hagrees (Nat.le_add_right _ _)
      (Nat.le_trans hle hlimit) n (v a)
    rw [exec_bind_ok hok, exec_bind_ok (hsame.symm.trans hok), exec_bind_ok hpush,
      exec_bind_ok (hpush'.symm.trans hpush)]
    exact hk a start c' htiled (hlimit' ▸ hlimit)

theorem alike_ulebField (hagrees : src.Agrees b data) (name : String) :
    Alike src b (Reader.ulebField src name) (Reader.ulebField (src.withData data) name) := by
  unfold Reader.ulebField
  exact Alike.field hagrees (m := fun _ => Reader.uleb128 src) moves_uleb128
    (exec_uleb128_withData hagrees) fun _ => .refl _

theorem alike_encodingField (hagrees : src.Agrees b data) (name : String) :
    Alike src b (Reader.encodingField src name)
      (Reader.encodingField (src.withData data) name) := by
  unfold Reader.encodingField
  exact Alike.field hagrees (m := fun _ => Reader.byte src .pointerEncoding) (moves_byte _)
    (fun hlimit => exec_byte_withData hagrees hlimit _) fun _ => .refl _

theorem alike_pointerField (hagrees : src.Agrees b data) (encoding : UInt8) (name : String) :
    Alike src b (Reader.pointerField src encoding name)
      (Reader.pointerField (src.withData data) encoding name) := by
  have hfield := Alike.field hagrees (n := name) (m := fun _ => Reader.pointer src encoding)
    (r := fun _ => Reader.pointer (src.withData data) encoding)
    (v := fun p => p.text (fun a => src.index.addressName a true) encoding)
    (moves_pointer encoding) (fun hlimit => exec_pointer_withData hagrees hlimit encoding)
    fun _ => .refl (pure ())
  have hlast (m : Reader Unit) : (do m; pure ()) = m := bind_pure_unit
  rw [Reader.pointerField, Reader.pointerField]
  simp only [hlast] at hfield
  exact hfield

theorem alike_remainder (hagrees : src.Agrees b data) (stop : Nat) (name : String) :
    Alike src b (Reader.remainder src stop name)
      (Reader.remainder (src.withData data) stop name) := by
  intro start c h hlimit
  have hpos := h.pos_le
  rw [Reader.remainder, Reader.remainder]
  simp only [exec_bind_ok exec_here, exec_bind_ok (exec_modify _ _)]
  exact exec_push_withData hagrees (Nat.le_max_left _ _) (by simp only; omega) _ _

end Alike

/-! ## Bodies -/

section Bodies

variable {β : Type} {src : Source} {data : Bytes} {b : Nat}

theorem alike_unknownAugmentation (hagrees : src.Agrees b data) (stop : Nat) :
    Alike src b (unknownAugmentation src stop)
      (unknownAugmentation (src.withData data) stop) := by
  refine .bind (keeps_checkAugmentation stop) (.refl _) fun _ => .bind keeps_here (.refl _) ?_
  intro pos
  split
  · exact alike_remainder hagrees _ _
  · exact .refl _

theorem alike_finishAugmentation (hagrees : src.Agrees b data) (stop : Nat) :
    Alike src b (finishAugmentation src stop) (finishAugmentation (src.withData data) stop) := by
  refine .bind (keeps_checkAugmentation stop) (.refl _) fun _ => .get fun start c h hlimit => ?_
  split
  · split
    · have hfail (e : Error) : exec (throw e : Reader Unit) c = (.error e, c) := rfl
      exact (exec_bind_error (hfail _) _).trans (exec_bind_error (hfail _) _).symm
    · exact alike_remainder hagrees _ _ start c h hlimit
  · rfl

theorem alike_cieLetters (hagrees : src.Agrees b data) (stop : Nat) (letters : List Char)
    (layout : Layout) :
    Alike src b (cieLetters src stop letters layout)
      (cieLetters (src.withData data) stop letters layout) := by
  fun_induction cieLetters src stop letters layout with
  | case1 layout => exact .refl _
  | case2 layout rest ih =>
    exact .bind (keeps_encodingField _) (alike_encodingField hagrees _) fun encoding =>
      .bind (keeps_pointerField encoding _) (alike_pointerField hagrees encoding _) fun _ => ih
  | case3 layout rest ih =>
    exact .bind (keeps_encodingField _) (alike_encodingField hagrees _) ih
  | case4 layout rest ih =>
    exact .bind (keeps_encodingField _) (alike_encodingField hagrees _) ih
  | case5 letter rest layout =>
    rw [cieLetters]
    · exact .bind (keeps_unknownAugmentation stop) (alike_unknownAugmentation hagrees stop)
        fun _ => .refl _
    all_goals assumption

theorem alike_fdeLetters (hagrees : src.Agrees b data) (layout : Layout) (stop : Nat)
    (letters : List Char) :
    Alike src b (fdeLetters src layout stop letters)
      (fdeLetters (src.withData data) layout stop letters) := by
  fun_induction fdeLetters src layout stop letters with
  | case1 => exact .refl _
  | case2 rest ih => exact ih
  | case3 rest ih => exact ih
  | case4 rest ih =>
    exact .bind (keeps_pointerField _ _) (alike_pointerField hagrees _ _) fun _ => ih
  | case5 letter rest =>
    rw [fdeLetters]
    · exact alike_unknownAugmentation hagrees stop
    all_goals assumption

theorem alike_augmentationField (hagrees : src.Agrees b data) :
    Alike src b (augmentationField src) (augmentationField (src.withData data)) := by
  refine .get fun start c h hlimit => ?_
  have hvisible : (src.withData data).data.take c.limit = src.data.take c.limit :=
    (hagrees.visible_eq hlimit).symm
  rw [hvisible]
  generalize ((src.data.take c.limit).drop c.pos).takeWhile (· ≠ 0) = text
  dsimp only
  split
  · rename_i hlt
    have hpush := exec_push_withData (c := c.skip (text.length + 1)) hagrees
      (Nat.le_add_right _ _) (Nat.le_trans hlt hlimit) "Augmentation String" (Text.Utf8.lossy text)
    rw [exec_bind_ok (exec_advance _), exec_bind_ok (exec_advance _), exec_bind, hpush, exec_bind]
  · rfl

/-- A signed number, read by hand, and what comes after it. -/
theorem Alike.signedField (hagrees : src.Agrees b data) {name : String} {k l : Reader β}
    (hk : Alike src b k l) :
    Alike src b
      (do
        let start ← Reader.here
        let x ← Reader.ofExcept (Leb128.signed (← Reader.visible src) start)
        Reader.advance x.2
        Reader.push src start name (Text.signedDecimal x.1.toInt)
        k)
      (do
        let start ← Reader.here
        let x ← Reader.ofExcept (Leb128.signed (← Reader.visible (src.withData data)) start)
        Reader.advance x.2
        Reader.push (src.withData data) start name (Text.signedDecimal x.1.toInt)
        l) := by
  have hfield := Alike.field hagrees (n := name)
    (m := fun start => do
      let x ← Reader.ofExcept (Leb128.signed (← Reader.visible src) start)
      Reader.advance x.2
      return x)
    (r := fun start => do
      let x ← Reader.ofExcept (Leb128.signed (← Reader.visible (src.withData data)) start)
      Reader.advance x.2
      return x)
    (v := fun x => Text.signedDecimal x.1.toInt) moves_signed (exec_signed_withData hagrees)
    fun _ => hk
  simpa only [bind_assoc, pure_bind] using hfield

/-- A part that only some records have, before what all of them have. -/
theorem Alike.optional {p : Prop} [Decidable p] {long short other rest : Reader β}
    (hlong : Alike src b short rest → Alike src b long other) (hshort : Alike src b short rest) :
    Alike src b (if p then long else short) (if p then other else rest) := by
  split
  · exact hlong hshort
  · exact hshort

theorem alike_cieEnd (hagrees : src.Agrees b data) (augmentation : String) (layout : Layout) :
    Alike src b (cieEnd src augmentation layout)
      (cieEnd (src.withData data) augmentation layout) := by
  have hrest (layout : Layout) : Alike src b
      (do
        Reader.remainder src (← get).limit "Initial Instructions"
        return layout)
      (do
        Reader.remainder (src.withData data) (← get).limit "Initial Instructions"
        return layout) :=
    .get fun start c h hlimit => Alike.bind (keeps_remainder _ _) (alike_remainder hagrees _ _)
      (fun _ => .refl _) start c h hlimit
  unfold cieEnd
  split
  · exact hrest layout
  · exact .bind (keeps_ulebField _) (alike_ulebField hagrees _) fun length =>
      .bind keeps_here (.refl _) fun pos =>
      .bind (keeps_cieLetters _ _ _) (alike_cieLetters hagrees _ _ _) fun layout =>
      .bind (keeps_finishAugmentation _) (alike_finishAugmentation hagrees _) fun _ => hrest layout

theorem alike_cieBody (hagrees : src.Agrees b data) :
    Alike src b (cieBody src) (cieBody (src.withData data)) := by
  simp only [cieBody, pure_bind]
  refine .field hagrees (moves_byte _) (fun hlimit => exec_byte_withData hagrees hlimit _)
    fun version => .bind keeps_augmentationField (alike_augmentationField hagrees) fun text => ?_
  refine .optional (fun hrest => .field hagrees (moves_take _ _)
    (fun hlimit => exec_take_withData hagrees hlimit _ _) fun _ => hrest) ?_
  refine .bind ((keeps_ulebField _).bind fun _ => keeps_pure _)
    (.bind (keeps_ulebField _) (alike_ulebField hagrees _) fun _ => .refl _) fun _ => ?_
  refine .signedField hagrees ?_
  by_cases hversion : version < 3
  · simp only [if_pos hversion]
    exact .field hagrees (moves_byte _) (fun hlimit => exec_byte_withData hagrees hlimit _)
      fun register => alike_cieEnd hagrees _ _
  · simp only [if_neg hversion]
    exact .field hagrees moves_uleb128 (exec_uleb128_withData hagrees)
      fun register => alike_cieEnd hagrees _ _

theorem alike_fdeBody (hagrees : src.Agrees b data) (layout : Layout) :
    Alike src b (fdeBody src layout) (fdeBody (src.withData data) layout) := by
  simp only [fdeBody]
  refine .bind (keeps_pointerField _ _) (alike_pointerField hagrees _ _) fun _ => ?_
  refine .field hagrees (moves_pointer _)
    (fun hlimit => exec_pointer_withData hagrees hlimit _) fun range => ?_
  have hrest : Alike src b
      (do Reader.remainder src (← get).limit "Call Frame Instructions")
      (do Reader.remainder (src.withData data) (← get).limit "Call Frame Instructions") :=
    .get fun start c h hlimit => alike_remainder hagrees _ _ start c h hlimit
  split
  · exact hrest
  · exact .bind (keeps_ulebField _) (alike_ulebField hagrees _) fun length =>
      .bind keeps_here (.refl _) fun pos =>
      .bind (keeps_fdeLetters _ _ _) (alike_fdeLetters hagrees _ _ _) fun _ =>
      .bind (keeps_finishAugmentation _) (alike_finishAugmentation hagrees _) fun _ => hrest

end Bodies

end MachInspect.Frame
