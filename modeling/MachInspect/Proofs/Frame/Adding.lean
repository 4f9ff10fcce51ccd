-- SUMMARY: What readers of records add to the fields when they succeed.
import MachInspect.Proofs.Frame.Tiling

/-!
# Fields that readers add

`Gives` follows a reader forwards as long as it succeeds, and `Adds` says which fields have come by
on the way. The fields tile the record, so they also say how far the cursor has moved. Numbers and
pointers take as many bytes as the bytes themselves say, whatever comes after them.
-/
namespace MachInspect.Frame

/-! ## Readers that succeed -/

section Gives

variable {α β : Type} {c : Cursor} {Q : β → Cursor → Prop}

/-- If reading from `c` on succeeds, then `post` holds of what it gives and of where it ends. -/
def Gives (m : Reader α) (c : Cursor) (post : α → Cursor → Prop) : Prop :=
  ∀ a c', exec m c = (.ok a, c') → post a c'

theorem Gives.pure {b : β} (h : Q b c) : Gives (pure b) c Q := by
  intro a c' hexec
  cases hexec
  exact h

theorem Gives.throw (e : Error) : Gives (throw e) c Q := by
  intro a c' hexec
  cases hexec

theorem Gives.bind {m : Reader α} {f : α → Reader β}
    (h : Gives m c fun a c' => Gives (f a) c' Q) : Gives (m >>= f) c Q := by
  intro b c' hexec
  rw [exec_bind] at hexec
  cases hm : exec m c with
  | mk result c₁ =>
    rw [hm] at hexec
    cases result with
    | error e => cases hexec
    | ok a => exact h a c₁ hm b c' hexec

theorem Gives.mono {m : Reader β} {P : β → Cursor → Prop} (h : Gives m c P)
    (himp : ∀ b c', P b c' → Q b c') : Gives m c Q :=
  fun b c' hexec => himp b c' (h b c' hexec)

theorem Gives.here_bind {f : Nat → Reader β} (h : Gives (f c.pos) c Q) :
    Gives (Reader.here >>= f) c Q :=
  .bind fun a c' hexec => by
    cases hexec
    exact h

theorem Gives.get_bind {f : Cursor → Reader β} (h : Gives (f c) c Q) : Gives (get >>= f) c Q :=
  .bind fun a c' hexec => by
    cases hexec
    exact h

theorem Gives.ite {p : Prop} [Decidable p] {m m' : Reader β} (h : p → Gives m c Q)
    (h' : ¬ p → Gives m' c Q) : Gives (if p then m else m') c Q := by
  split
  · exact h ‹_›
  · exact h' ‹_›

end Gives

/-! ## Fields that are added -/

section Adding

variable {α β : Type} {src : Source} {start : Nat} {c c' c'' : Cursor} {new more : List Field}
  {Q : β → Cursor → Prop}

/-- From `c` to `c'`, the fields `new` were added, and all fields still tile the record. -/
structure Adds (src : Source) (start : Nat) (c : Cursor) (new : List Field) (c' : Cursor) : Prop
    extends Tiled src start c' where
  limit_eq : c'.limit = c.limit
  fields_eq : c'.fields = c.fields ++ new

theorem covered_append (fields more : List Field) :
    covered (fields ++ more) = covered fields + covered more := by
  simp [covered]

theorem Tiled.adds_nil (h : Tiled src start c) : Adds src start c [] c :=
  ⟨h, rfl, (List.append_nil _).symm⟩

theorem Adds.trans (h : Adds src start c new c') (h' : Adds src start c' more c'') :
    Adds src start c (new ++ more) c'' :=
  ⟨h'.toTiled, h'.limit_eq.trans h.limit_eq, by
    rw [h'.fields_eq, h.fields_eq, List.append_assoc]⟩

/-- The cursor moves by what the fields show. -/
theorem Adds.pos_eq (h : Adds src start c new c') (htiled : Tiled src start c) :
    c'.pos = c.pos + covered new := by
  rw [h.tiles.stop_eq, htiled.tiles.stop_eq, h.fields_eq, covered_append, Nat.add_assoc]

theorem Adds.pos_field {f : Field} (h : Adds src start c [f] c') (htiled : Tiled src start c) :
    c'.pos = c.pos + f.bytes.length :=
  h.pos_eq htiled

/-- Bytes of the record that were passed over become a field. -/
theorem adds_push (name value : String) {len : Nat} (h : Tiled src start c)
    (hle : c.pos + len ≤ c.limit) :
    ∃ f c', exec (Reader.push src c.pos name value) (c.skip len) = (.ok ⟨⟩, c') ∧
      Adds src start c [f] c' ∧ f.name = name ∧ f.value = value ∧
      f.bytes = (src.data.drop c.pos).take len ∧ f.bytes.length = len := by
  obtain ⟨c', hpush, htiled, hlimit, -⟩ := exec_push_tiled (c := c.skip len) name value h.tiles
    (Nat.le_add_right _ _) (h.toInside.skip hle)
  have hshown := exec_push_skip src c len name value
  have hfields := congrArg (fun x => x.2.fields) (hpush.symm.trans hshown)
  have hlength : ((src.data.drop c.pos).take len).length = len := by
    have hend := h.limit_le
    rw [List.length_take, List.length_drop]
    omega
  exact ⟨_, c', hpush, ⟨htiled, hlimit, hfields⟩, rfl, rfl, rfl, hlength⟩

/-- What is read from a place on, and becomes a field. -/
structure ReadField (src : Source) (c : Cursor) (m : Reader α) (a : α) (f : Field) : Prop where
  exec_eq : exec m c = (.ok a, c.skip f.bytes.length)
  bytes_eq : f.bytes = (src.data.drop c.pos).take f.bytes.length

theorem Gives.field {m : Nat → Reader α} {k : α → Reader β} {n : String} {v : α → String}
    (h : Tiled src start c) (hm : Moves (m c.pos) c)
    (hk : ∀ a f c', ReadField src c (m c.pos) a f → f.name = n → f.value = v a →
      Adds src start c [f] c' → Gives (k a) c' Q) :
    Gives (do
      let start ← Reader.here
      let x ← m start
      Reader.push src start n (v x)
      k x) c Q := by
  refine .here_bind (.bind fun a c₁ hexec => .bind fun u c₂ hpush => ?_)
  rcases hm with ⟨e, herror⟩ | ⟨a', len, hok, hle⟩
  · rw [herror] at hexec
    cases hexec
  · rw [hok] at hexec
    cases hexec
    obtain ⟨f, c₃, hpush', hadds, hname, hvalue, hbytes, rfl⟩ := adds_push n (v a) h hle
    rw [hpush'] at hpush
    cases hpush
    exact hk a f c₂ ⟨hok, hbytes⟩ hname hvalue hadds

end Adding

/-! ## Numbers and pointers -/

/-- How many bytes the pointer at `pos` takes. -/
def Source.pointerWidth (src : Source) (encoding : UInt8) (pos : Nat) : Nat :=
  if encoding = omitted then 0
  else
    match Encoding.format? encoding src.pointerSize with
    | some (.word width _) => width
    | some .uleb128 | some .sleb128 => Leb128.width (src.data.drop pos)
    | none => 0

section Numbers

variable {src : Source} {start : Nat} {c : Cursor} {f : Field}

theorem Cursor.Inside.drop_eq (h : c.Inside src) :
    (src.data.take c.limit).drop c.pos ++ src.data.drop c.limit = src.data.drop c.pos := by
  have hrest : Rest src c ((src.data.take c.limit).drop c.pos) := ⟨h.pos_le, h.limit_le, rfl⟩
  exact hrest.drop_eq.symm

theorem skip_inj {len len' : Nat} (h : c.skip len = c.skip len') : len = len' :=
  Nat.add_left_cancel (congrArg Cursor.pos h)

theorem ReadField.uleb128 {v : UInt64} (h : ReadField src c (Reader.uleb128 src) v f)
    (hinside : c.Inside src) : v.toNat = Leb128.value f.bytes := by
  have hexec := h.exec_eq
  rw [Reader.uleb128, exec_bind_ok exec_visible, exec_bind_ok exec_here] at hexec
  cases hfound : Leb128.unsigned (src.data.take c.limit) c.pos with
  | error e =>
    rw [hfound] at hexec
    cases hexec
  | ok found =>
    rw [hfound] at hexec
    rw [Leb128.unsigned_eq] at hfound
    obtain ⟨group, hgroup, hvalue⟩ := exists_ok_of_bind_ok hfound
    cases hvalue
    have hv : UInt64.ofNat (Leb128.value group) = v :=
      Except.ok.inj (congrArg Prod.fst hexec)
    have hlength : group.length = f.bytes.length := skip_inj (congrArg Prod.snd hexec)
    obtain ⟨hle, hmore⟩ := Leb128.of_groupAt hgroup
    have hbytes := (hmore (src.data.drop c.limit)).1
    rw [hinside.drop_eq, hlength, ← h.bytes_eq] at hbytes
    rw [← hv, hbytes]
    exact Leb128.toNat_word_ofGroup hle

theorem gives_ulebField (name : String) (h : Tiled src start c) :
    Gives (Reader.ulebField src name) c fun v c' => ∃ f, Adds src start c [f] c' ∧
      f.name = name ∧ f.value = Text.decimal v.toNat ∧ v.toNat = Leb128.value f.bytes := by
  unfold Reader.ulebField
  refine .field (m := fun _ => Reader.uleb128 src) h (moves_uleb128 h.toInside)
    fun v f c' hread hname hvalue hadds => ?_
  exact .pure ⟨f, hadds, hname, hvalue, hread.uleb128 h.toInside⟩

theorem ReadField.byte {item : Item} {b : UInt8} (h : ReadField src c (Reader.byte src item) b f)
    (hinside : c.Inside src) :
    f.bytes.length = 1 ∧ b = src.data.getD c.pos 0 ∧ b = f.bytes.headD 0 := by
  have hexec := h.exec_eq
  rw [Reader.byte] at hexec
  rcases Nat.lt_or_ge c.limit (c.pos + 1) with hlt | hle
  · rw [exec_bind_error (exec_take_of_lt hlt)] at hexec
    cases hexec
  · rw [exec_bind_ok (exec_take_of_le hinside hle)] at hexec
    have hlength : 1 = f.bytes.length := skip_inj (congrArg Prod.snd hexec)
    have hb : ((src.data.drop c.pos).take 1).headD 0 = b :=
      Except.ok.inj (congrArg Prod.fst hexec)
    have hbytes := h.bytes_eq
    rw [← hlength] at hbytes
    refine ⟨hlength.symm, ?_, by rw [hbytes, hb]⟩
    rw [← hb, List.getD_eq_getElem?_getD, ← List.head?_drop]
    cases src.data.drop c.pos <;> rfl

/-- Bytes that hold a pointer, and maybe more after it, tell how long it is. -/
theorem length_of_read {order : ByteOrder} {data : Bytes} {encoding : UInt8} {field : UInt64}
    {p : Pointer} {pos : Nat} {more : Bytes}
    (h : Pointer.read order src.pointerSize data pos encoding field = .ok p)
    (hdata : data.drop pos ++ more = src.data.drop pos) :
    p.length = src.pointerWidth encoding pos := by
  unfold Pointer.read at h
  unfold Source.pointerWidth
  split at h
  next homitted =>
    cases h
    rw [if_pos homitted]
  next hstored =>
    rw [if_neg hstored]
    have hleb (item : Item) {group : Bytes} (hgroup : Leb128.groupAt item data pos = .ok group) :
        group.length = Leb128.width (src.data.drop pos) := by
      rw [← hdata, ((Leb128.of_groupAt hgroup).2 more).2]
    cases hformat : Encoding.format? encoding src.pointerSize with
    | none =>
      rw [hformat] at h
      cases h
    | some format =>
      rw [hformat] at h
      obtain ⟨found, hread, hp⟩ := exists_ok_of_bind_ok h
      cases hp
      cases format with
      | word width signed =>
        simp only [Encoding.Format.read] at hread
        split at hread <;> cases hread
        rfl
      | uleb128 =>
        rw [Encoding.Format.read, Leb128.unsigned_eq] at hread
        obtain ⟨group, hgroup, hfound⟩ := exists_ok_of_bind_ok hread
        cases hfound
        exact hleb _ hgroup
      | sleb128 =>
        simp only [Encoding.Format.read] at hread
        cases hsigned : Leb128.signed data pos with
        | error e =>
          rw [hsigned] at hread
          cases hread
        | ok number =>
          rw [hsigned] at hread
          cases hread
          rw [Leb128.signed_eq] at hsigned
          obtain ⟨group, hgroup, hfound⟩ := exists_ok_of_bind_ok hsigned
          cases hfound
          exact hleb _ hgroup

theorem ReadField.pointer {encoding : UInt8} {p : Pointer}
    (h : ReadField src c (Reader.pointer src encoding) p f) (hinside : c.Inside src) :
    f.bytes.length = src.pointerWidth encoding c.pos := by
  have hexec := h.exec_eq
  rw [Reader.pointer, exec_bind_ok exec_here, exec_bind_ok exec_visible] at hexec
  cases hread : Pointer.read src.order src.pointerSize (src.data.take c.limit) c.pos encoding
      (src.addressAt c.pos) with
  | error e =>
    rw [hread] at hexec
    cases hexec
  | ok found =>
    rw [hread] at hexec
    have hlength : found.length = f.bytes.length := skip_inj (congrArg Prod.snd hexec)
    rw [← hlength]
    exact length_of_read hread hinside.drop_eq

theorem gives_encodingField (name : String) (h : Tiled src start c) :
    Gives (Reader.encodingField src name) c fun encoding c' => ∃ f, Adds src start c [f] c' ∧
      f.name = name ∧ f.bytes.length = 1 ∧ encoding = src.data.getD c.pos 0 ∧
      encoding = f.bytes.headD 0 := by
  unfold Reader.encodingField
  refine .field (m := fun _ => Reader.byte src .pointerEncoding) h (moves_byte _ h.toInside)
    fun encoding f c' hread hname _ hadds => ?_
  exact .pure ⟨f, hadds, hname, hread.byte h.toInside⟩

theorem gives_pointerField (encoding : UInt8) (name : String) (h : Tiled src start c) :
    Gives (Reader.pointerField src encoding name) c fun _ c' => ∃ f, Adds src start c [f] c' ∧
      f.name = name ∧ f.bytes.length = src.pointerWidth encoding c.pos := by
  have hfield : Gives (do
      let start ← Reader.here
      let p ← Reader.pointer src encoding
      Reader.push src start name (p.text (fun a => src.index.addressName a true) encoding)
      pure ()) c fun _ c' => ∃ f, Adds src start c [f] c' ∧
        f.name = name ∧ f.bytes.length = src.pointerWidth encoding c.pos :=
    .field (m := fun _ => Reader.pointer src encoding) h (moves_pointer encoding h.toInside)
      fun p f c' hread hname _ hadds => .pure ⟨f, hadds, hname, hread.pointer h.toInside⟩
  have hlast (m : Reader Unit) : (do m; pure ()) = m := bind_pure_unit
  rw [Reader.pointerField]
  simpa only [hlast] using hfield

/-- Bytes up to a given place, or up to the end of the record if that comes first. -/
theorem gives_remainder (stop : Nat) (name : String) (h : Tiled src start c) :
    Gives (Reader.remainder src stop name) c fun _ c' => ∃ f, Adds src start c [f] c' ∧
      f.name = name ∧ c'.pos = max c.pos (min stop c.limit) := by
  intro u c' hexec
  obtain ⟨c₁, hexec', hfollows, hpos⟩ := exec_remainder_tiled stop name h
  rw [hexec'] at hexec
  cases hexec
  rw [Reader.remainder, exec_bind_ok exec_here, exec_bind_ok (exec_modify _ _),
    exec_bind_ok exec_here, Reader.push, exec_modify] at hexec'
  have hfields := (congrArg (fun x => x.2.fields) hexec').symm
  exact ⟨_, ⟨hfollows.tiled, hfollows.limit_eq, hfields⟩, rfl, hpos⟩

end Numbers

end MachInspect.Frame
