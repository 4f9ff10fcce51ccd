-- SUMMARY: The augmentation data of a record, letter by letter, and the fields around them.
import MachInspect.Proofs.Frame.Adding

/-!
# Letters of augmentations

The augmentation string of a common record says, letter by letter, which data it and its frame
records carry. What letters ask for is said here over the bytes of the section, without any reader.
The readers go through the letters without a look at the declared end, and check it afterwards: in a
body that is read in full, the data end where they should, whatever the letters are.
-/
namespace MachInspect.Frame

/-! ## What letters ask for -/

namespace Source

/-- Where the data of the letters of a common record end, from `pos` on. A letter that is not known,
and all after it, ask for nothing that is known. -/
def cieDataEnd (src : Source) : List Char → Nat → Nat
  | [], pos => pos
  | 'P' :: rest, pos =>
    src.cieDataEnd rest (pos + 1 + src.pointerWidth (src.data.getD pos 0) (pos + 1))
  | 'R' :: rest, pos => src.cieDataEnd rest (pos + 1)
  | 'L' :: rest, pos => src.cieDataEnd rest (pos + 1)
  | _ :: _, pos => pos

/-- Where the data of the letters of a frame record end, from `pos` on. -/
def fdeDataEnd (src : Source) (lsdaEncoding : UInt8) : List Char → Nat → Nat
  | [], pos => pos
  | 'P' :: rest, pos => src.fdeDataEnd lsdaEncoding rest pos
  | 'R' :: rest, pos => src.fdeDataEnd lsdaEncoding rest pos
  | 'L' :: rest, pos =>
    src.fdeDataEnd lsdaEncoding rest (pos + src.pointerWidth lsdaEncoding pos)
  | _ :: _, pos => pos

end Source

/-! ## Fields by name -/

def lengthName : String := "Augmentation Data Length"

def augmentationName : String := "Augmentation String"

def lsdaName : String := "Augmentation Data (LSDA Encoding)"

/-- The name of the last field of a record without an error. -/
def RecordKind.instructionsName : RecordKind → String
  | .cie => "Initial Instructions"
  | .fde => "Call Frame Instructions"

/-- What the last field with a name says. -/
def lastShown {α : Type} (name : String) (read : Field → α) (default : α) (fields : List Field) :
    α :=
  fields.foldl (fun a f => if f.name = name then read f else a) default

/-- The augmentation string of a common record. -/
def Record.augmentation (r : Record) : String := lastShown augmentationName Field.value "" r.fields

def lsdaEncodingOf (default : UInt8) (fields : List Field) : UInt8 :=
  lastShown lsdaName (fun f => f.bytes.headD 0) default fields

/-- How a common record says that pointers to language-specific data are stored. -/
def Record.lsdaEncoding (r : Record) : UInt8 := lsdaEncodingOf omitted r.fields

/-- No field has one of the names. -/
def Avoids (names : List String) (fields : List Field) : Prop := ∀ f ∈ fields, f.name ∉ names

section Names

variable {α : Type} {name : String} {names : List String} {read : Field → α} {a : α}
  {fields more : List Field}

@[simp] theorem avoids_nil : Avoids names [] := nofun

@[simp] theorem avoids_cons {f : Field} :
    Avoids names (f :: fields) ↔ f.name ∉ names ∧ Avoids names fields :=
  List.forall_mem_cons

@[simp] theorem avoids_append :
    Avoids names (fields ++ more) ↔ Avoids names fields ∧ Avoids names more :=
  List.forall_mem_append

theorem Avoids.mono {names' : List String} (h : Avoids names fields) (hsub : names' ⊆ names) :
    Avoids names' fields := fun f hf hname => h f hf (hsub hname)

theorem lastShown_append :
    lastShown name read a (fields ++ more) = lastShown name read (lastShown name read a fields) more :=
  List.foldl_append

theorem lastShown_of_avoids (h : Avoids names fields) (hname : name ∈ names) :
    lastShown name read a fields = a := by
  induction fields with
  | nil => rfl
  | cons f fields ih =>
    obtain ⟨hf, hfields⟩ := avoids_cons.mp h
    have hne : f.name ≠ name := fun heq => hf (heq ▸ hname)
    rw [lastShown, List.foldl_cons, if_neg hne]
    exact ih hfields

end Names

/-! ## Letters -/

section Letters

variable {src : Source} {start : Nat} {c : Cursor}

/-- The data of a letter that is not known. -/
theorem gives_unknownAugmentation (stop : Nat) (h : Tiled src start c) :
    Gives (unknownAugmentation src stop) c fun _ c' => ∃ data, Adds src start c data c' ∧
      ∀ f ∈ data, f.name = "Augmentation Data (Unknown)" := by
  unfold unknownAugmentation checkAugmentation
  refine .bind (.here_bind (.ite (fun _ => .throw _) fun _ => .pure (.here_bind ?_)))
  refine .ite (fun _ => ?_) fun _ => .pure ⟨[], h.adds_nil, nofun⟩
  refine (gives_remainder stop _ h).mono fun _ c' ⟨f, hadds, hname, _⟩ => ⟨[f], hadds, ?_⟩
  simpa using hname

/-- Data that are not all read are shown up to the declared end, which is in the record. -/
theorem gives_finishAugmentation (stop : Nat) (h : Tiled src start c) :
    Gives (finishAugmentation src stop) c fun _ c' => ∃ data, Adds src start c data c' ∧
      (∀ f ∈ data, f.name = "Augmentation Data (Remains)") ∧ c'.pos = stop := by
  unfold finishAugmentation checkAugmentation
  refine .bind (.here_bind (.ite (fun _ => .throw _) fun hle => .pure (.get_bind ?_)))
  refine .ite (fun hlt => ?_) fun hge => .pure ⟨[], h.adds_nil, nofun, by omega⟩
  refine .ite (fun _ => .throw _) fun hstop => ?_
  refine (gives_remainder stop _ h).mono fun _ c' ⟨f, hadds, hname, hpos⟩ => ⟨[f], hadds, ?_, ?_⟩
  · simpa using hname
  · omega

/-- What a common record hands down is what its fields show. -/
structure HandsDown (layout layout' : Layout) (data : List Field) : Prop where
  augmentation_eq : layout'.augmentation = layout.augmentation
  lsdaEncoding_eq : layout'.lsdaEncoding = lsdaEncodingOf layout.lsdaEncoding data

theorem lsdaEncodingOf_cons {f : Field} (encoding : UInt8) (fields : List Field)
    (h : f.name ≠ lsdaName) :
    lsdaEncodingOf encoding (f :: fields) = lsdaEncodingOf encoding fields := by
  rw [lsdaEncodingOf, lastShown, List.foldl_cons, if_neg h]
  rfl

theorem lsdaEncodingOf_cons_self {f : Field} (encoding : UInt8) (fields : List Field)
    (h : f.name = lsdaName) :
    lsdaEncodingOf encoding (f :: fields) = lsdaEncodingOf (f.bytes.headD 0) fields := by
  rw [lsdaEncodingOf, lastShown, List.foldl_cons, if_pos h]
  rfl

/-- The letters of a common record add no field of the record itself, they take as many bytes as
they ask for, and at least as many if one of them is not known. -/
theorem gives_cieLetters (stop : Nat) (letters : List Char) (layout : Layout)
    (h : Tiled src start c) :
    Gives (cieLetters src stop letters layout) c fun layout' c' => ∃ data,
      Adds src start c data c' ∧ Avoids [lengthName, augmentationName] data ∧
        HandsDown layout layout' data ∧ src.cieDataEnd letters c.pos ≤ c'.pos := by
  fun_induction cieLetters src stop letters layout generalizing c with
  | case1 layout =>
    exact .pure ⟨[], h.adds_nil, avoids_nil, ⟨rfl, rfl⟩, Nat.le_refl _⟩
  | case2 layout rest ih =>
    refine .bind ((gives_encodingField _ h).mono ?_)
    rintro encoding c₁ ⟨f, hadds, hname, hlength, hbyte, _⟩
    refine .bind ((gives_pointerField encoding _ hadds.toTiled).mono ?_)
    rintro _ c₂ ⟨f', hadds', hname', hlength'⟩
    refine (ih hadds'.toTiled).mono ?_
    rintro layout' c₃ ⟨data, hdata, havoids, hdown, hend⟩
    have hpos : c₁.pos = c.pos + 1 := hlength ▸ hadds.pos_field h
    have hpos' := hadds'.pos_field hadds.toTiled
    refine ⟨f :: f' :: data, (hadds.trans hadds').trans hdata, ?_, ⟨hdown.augmentation_eq, ?_⟩, ?_⟩
    · rw [avoids_cons, avoids_cons, hname, hname']
      exact ⟨by decide, by decide, havoids⟩
    · rw [lsdaEncodingOf_cons _ _ (hname ▸ by decide), lsdaEncodingOf_cons _ _ (hname' ▸ by decide)]
      exact hdown.lsdaEncoding_eq
    · rwa [Source.cieDataEnd, ← hbyte, ← hpos, ← hlength', ← hpos']
  | case3 layout rest ih =>
    refine .bind ((gives_encodingField _ h).mono ?_)
    rintro encoding c₁ ⟨f, hadds, hname, hlength, _, _⟩
    refine (ih encoding hadds.toTiled).mono ?_
    rintro layout' c₂ ⟨data, hdata, havoids, hdown, hend⟩
    refine ⟨f :: data, hadds.trans hdata, ?_, ⟨hdown.augmentation_eq, ?_⟩, ?_⟩
    · rw [avoids_cons, hname]
      exact ⟨by decide, havoids⟩
    · rw [lsdaEncodingOf_cons _ _ (hname ▸ by decide)]
      exact hdown.lsdaEncoding_eq
    · rwa [Source.cieDataEnd, ← hlength, ← hadds.pos_field h]
  | case4 layout rest ih =>
    refine .bind ((gives_encodingField _ h).mono ?_)
    rintro encoding c₁ ⟨f, hadds, hname, hlength, _, hencoding⟩
    refine (ih encoding hadds.toTiled).mono ?_
    rintro layout' c₂ ⟨data, hdata, havoids, hdown, hend⟩
    refine ⟨f :: data, hadds.trans hdata, ?_, ⟨hdown.augmentation_eq, ?_⟩, ?_⟩
    · rw [avoids_cons, hname]
      exact ⟨by decide, havoids⟩
    · rw [lsdaEncodingOf_cons_self _ _ hname, ← hencoding]
      exact hdown.lsdaEncoding_eq
    · rwa [Source.cieDataEnd, ← hlength, ← hadds.pos_field h]
  | case5 letter rest layout hP hR hL =>
    refine .bind ((gives_unknownAugmentation stop h).mono ?_)
    rintro _ c' ⟨data, hadds, hnames⟩
    have havoids : Avoids [lengthName, augmentationName, lsdaName] data := fun f hf =>
      hnames f hf ▸ by decide
    refine .pure ⟨data, hadds, havoids.mono (by simp), ⟨rfl, ?_⟩, ?_⟩
    · exact (lastShown_of_avoids havoids (by simp)).symm
    · rw [Source.cieDataEnd, hadds.pos_eq h]
      · exact Nat.le_add_right _ _
      all_goals assumption

/-- The letters of a frame record take as many bytes as they ask for, and at least as many if one of
them is not known. -/
theorem gives_fdeLetters (layout : Layout) (stop : Nat) (letters : List Char)
    (h : Tiled src start c) :
    Gives (fdeLetters src layout stop letters) c fun _ c' => ∃ data,
      Adds src start c data c' ∧ Avoids [lengthName] data ∧
        src.fdeDataEnd layout.lsdaEncoding letters c.pos ≤ c'.pos := by
  fun_induction fdeLetters src layout stop letters generalizing c with
  | case1 => exact .pure ⟨[], h.adds_nil, avoids_nil, Nat.le_refl _⟩
  | case2 rest ih => exact ih h
  | case3 rest ih => exact ih h
  | case4 rest ih =>
    refine .bind ((gives_pointerField _ _ h).mono ?_)
    rintro _ c₁ ⟨f, hadds, hname, hlength⟩
    refine (ih hadds.toTiled).mono ?_
    rintro _ c₂ ⟨data, hdata, havoids, hend⟩
    refine ⟨f :: data, hadds.trans hdata, ?_, ?_⟩
    · rw [avoids_cons, hname]
      exact ⟨by decide, havoids⟩
    · rwa [Source.fdeDataEnd, ← hlength, ← hadds.pos_field h]
  | case5 letter rest hP hR hL =>
    refine (gives_unknownAugmentation stop h).mono ?_
    rintro _ c' ⟨data, hadds, hnames⟩
    refine ⟨data, hadds, fun f hf => hnames f hf ▸ by decide, ?_⟩
    rw [Source.fdeDataEnd, hadds.pos_eq h]
    · exact Nat.le_add_right _ _
    all_goals assumption

end Letters

/-! ## Bodies -/

/-- The fields of a record from `start` on, around its augmentation data. -/
structure Augmented (dataEnd : Nat → Nat) (name : String) (start : Nat) (fields before : List Field)
    (length : Field) (data : List Field) (last : Field) : Prop where
  fields_eq : fields = before ++ length :: (data ++ [last])
  length_name : length.name = lengthName
  last_name : last.name = name
  /-- There is one length only. -/
  unique : Avoids [lengthName] (before ++ (data ++ [last]))
  /-- The data take as many bytes as their length says. -/
  covered_eq : covered data = Leb128.value length.bytes
  shown : length.value = Text.decimal (covered data)
  /-- The letters ask for no more. -/
  dataEnd_le : dataEnd (start + covered (before ++ [length])) ≤
    start + covered (before ++ length :: data)

section Bodies

variable {α β : Type} {src : Source} {start : Nat} {c c' c'' : Cursor} {Q : β → Cursor → Prop}

/-- The names that stand for something later on. -/
def namesInUse : List String := [lengthName, augmentationName, lsdaName]

/-- The cursor is before the augmentation data of a record, whose augmentation string, if it has
come by, is `augmentation`. -/
structure Front (src : Source) (start : Nat) (augmentation : String) (c : Cursor) : Prop
    extends Tiled src start c where
  avoids : Avoids [lengthName, lsdaName] c.fields
  augmentation_eq : lastShown augmentationName Field.value "" c.fields = augmentation

theorem Front.add {s : String} {f : Field} (h : Front src start s c)
    (hadds : Adds src start c [f] c') (hname : f.name ∉ namesInUse) : Front src start s c' := by
  have hplain : Avoids namesInUse [f] := by simpa using hname
  refine ⟨hadds.toTiled, ?_, ?_⟩
  · rw [hadds.fields_eq, avoids_append]
    exact ⟨h.avoids, hplain.mono (by decide)⟩
  · rw [hadds.fields_eq, lastShown_append, lastShown_of_avoids hplain (by decide)]
    exact h.augmentation_eq

/-- A field of the front, and what comes after it. -/
theorem Gives.front {m : Nat → Reader α} {k : α → Reader β} {n s : String} {v : α → String}
    (h : Front src start s c) (hn : n ∉ namesInUse)
    (hm : ∀ {c : Cursor}, c.Inside src → Moves (m c.pos) c)
    (hk : ∀ a c', Front src start s c' → Gives (k a) c' Q) :
    Gives (do
      let start ← Reader.here
      let x ← m start
      Reader.push src start n (v x)
      k x) c Q :=
  .field h.toTiled (hm h.toInside) fun a _ c' _ hname _ hadds => hk a c' (h.add hadds (hname ▸ hn))

theorem gives_augmentationField {s : String} (h : Front src start s c) :
    Gives (augmentationField src) c fun s' c' => Front src start s' c' := by
  refine .get_bind ?_
  generalize ((src.data.take c.limit).drop c.pos).takeWhile (· ≠ 0) = text
  refine .ite (fun hlt => ?_) fun _ => .throw _
  have hle : c.pos + (text.length + 1) ≤ c.limit := hlt
  obtain ⟨f, c', hpush, hadds, hname, hvalue, -, -⟩ := adds_push augmentationName
    (Text.Utf8.lossy text) h.toTiled hle
  intro s' c₁ hexec
  have hpush' : exec (Reader.push src c.pos "Augmentation String" (Text.Utf8.lossy text))
      (c.skip (text.length + 1)) = (.ok ⟨⟩, c') := hpush
  rw [exec_bind_ok (exec_advance _), exec_bind_ok hpush'] at hexec
  cases hexec
  refine ⟨hadds.toTiled, ?_, ?_⟩
  · rw [hadds.fields_eq, avoids_append, avoids_cons, hname]
    exact ⟨h.avoids, by decide, avoids_nil⟩
  · rw [hadds.fields_eq, lastShown_append, lastShown, List.foldl_cons, if_pos hname]
    exact hvalue

/-- The data of some letters, and what is left of the declared bytes. -/
structure Counted (src : Source) (start : Nat) (dataEnd : Nat → Nat) (c : Cursor) (length : Field)
    (data remains : List Field) (c' : Cursor) : Prop
    extends Adds src start c (length :: (data ++ remains)) c' where
  length_name : length.name = lengthName
  data_avoids : Avoids [lengthName] data
  remains_name : ∀ f ∈ remains, f.name = "Augmentation Data (Remains)"
  covered_eq : covered (data ++ remains) = Leb128.value length.bytes
  shown : length.value = Text.decimal (covered (data ++ remains))
  dataEnd_le : dataEnd (c.pos + length.bytes.length) ≤ c'.pos

/-- Augmentation data between their length and what comes after them. -/
theorem Gives.counted {m : Nat → UInt64 → Reader α} {k : α → Reader β} (dataEnd : Nat → Nat)
    {R : α → List Field → Prop} (h : Tiled src start c)
    (hm : ∀ pos length c, Tiled src start c → Gives (m pos length) c fun a c' => ∃ data,
      Adds src start c data c' ∧ Avoids [lengthName] data ∧ R a data ∧ dataEnd c.pos ≤ c'.pos)
    (hk : ∀ a length data remains c', Counted src start dataEnd c length data remains c' →
      R a data → Gives (k a) c' Q) :
    Gives (do
      let length ← Reader.ulebField src lengthName
      let pos ← Reader.here
      let x ← m pos length
      finishAugmentation src (pos + length.toNat)
      k x) c Q := by
  refine .bind ((gives_ulebField _ h).mono ?_)
  intro v c₁ ⟨length, hadds, hname, hvalue, hv⟩
  refine .here_bind (.bind ((hm _ _ c₁ hadds.toTiled).mono ?_))
  intro a c₂ ⟨data, hdata, havoids, hr, hend⟩
  refine .bind ((gives_finishAugmentation _ hdata.toTiled).mono ?_)
  intro _ c₃ ⟨remains, hremains, hnames, hstop⟩
  have hboth := hdata.trans hremains
  have hcovered : covered (data ++ remains) = v.toNat := by
    have hpos := hboth.pos_eq hadds.toTiled
    omega
  have hpos := hremains.pos_eq hdata.toTiled
  refine hk a length data remains c₃ ⟨hadds.trans hboth, hname, havoids, hnames, hv ▸ hcovered,
    hcovered ▸ hvalue, ?_⟩ hr
  rw [← hadds.pos_field h]
  omega

/-- With the last field after the data, the record is complete. -/
theorem Counted.augmented {dataEnd : Nat → Nat} {name : String} {length last : Field}
    {data remains : List Field} (h : Counted src start dataEnd c length data remains c')
    (htiled : Tiled src start c) (hbefore : Avoids [lengthName] c.fields)
    (hlast : Adds src start c' [last] c'') (hname : last.name = name)
    (hother : name ∉ [lengthName]) :
    Augmented dataEnd name start c''.fields c.fields length (data ++ remains) last := by
  have hremains : Avoids [lengthName] remains := fun f hf => h.remains_name f hf ▸ by decide
  have hstart : start + covered (c.fields ++ [length]) = c.pos + length.bytes.length := by
    rw [covered_append, htiled.tiles.stop_eq, Nat.add_assoc]
    rfl
  refine ⟨?_, h.length_name, hname, ?_, h.covered_eq, h.shown, ?_⟩
  · rw [hlast.fields_eq, h.fields_eq, List.append_assoc, List.cons_append]
  · simp only [avoids_append, avoids_cons, hname]
    exact ⟨hbefore, ⟨h.data_avoids, hremains⟩, hother, avoids_nil⟩
  · rw [hstart, ← h.fields_eq, ← h.tiles.stop_eq]
    exact h.dataEnd_le

/-- The fields of a common record show what it hands down, and its augmentation data in full. -/
structure ShowsLayout (src : Source) (start : Nat) (layout : Layout) (fields : List Field) :
    Prop where
  augmentation_eq : lastShown augmentationName Field.value "" fields = layout.augmentation
  lsdaEncoding_eq : lsdaEncodingOf omitted fields = layout.lsdaEncoding
  augmented : ∀ letters, augmentationLetters? layout.augmentation = some letters →
    ∃ before length data last, Augmented (src.cieDataEnd letters)
      RecordKind.cie.instructionsName start fields before length data last

theorem gives_cieEnd {s : String} (h : Front src start s c) :
    Gives (cieEnd src s ⟨s, 0, omitted⟩) c fun layout c' =>
      ShowsLayout src start layout c'.fields := by
  have hlsda : Avoids [lsdaName] c.fields := h.avoids.mono (by simp)
  unfold cieEnd
  split
  next hnone =>
    refine .get_bind (.bind ((gives_remainder _ _ h.toTiled).mono ?_))
    intro _ c' ⟨last, hadds, hname, _⟩
    have hplain : Avoids namesInUse [last] := by
      rw [avoids_cons, hname]
      exact ⟨by decide, avoids_nil⟩
    refine .pure ⟨?_, ?_, fun letters hletters => ?_⟩
    · rw [hadds.fields_eq, lastShown_append, lastShown_of_avoids hplain (by decide)]
      exact h.augmentation_eq
    · rw [hadds.fields_eq]
      exact lastShown_of_avoids (avoids_append.mpr ⟨hlsda, hplain.mono (by decide)⟩) (by simp)
    · rw [hnone] at hletters
      cases hletters
  next letters hletters =>
    refine .counted (R := fun layout data => Avoids [augmentationName] data ∧
      HandsDown ⟨s, 0, omitted⟩ layout data) (src.cieDataEnd letters) h.toTiled ?_ ?_
    · intro pos length c h
      refine (gives_cieLetters _ letters _ h).mono ?_
      intro layout c' ⟨data, hadds, havoids, hdown, hend⟩
      exact ⟨data, hadds, havoids.mono (by simp), ⟨havoids.mono (by simp), hdown⟩, hend⟩
    intro layout length data remains c₁ hcounted ⟨havoids, hdown⟩
    refine .get_bind (.bind ((gives_remainder _ _ hcounted.toTiled).mono ?_))
    intro _ c₂ ⟨last, hlast, hname, _⟩
    have hfields : c₂.fields = c.fields ++ [length] ++ data ++ (remains ++ [last]) := by
      rw [hlast.fields_eq, hcounted.fields_eq]
      simp
    have hlength : Avoids [augmentationName, lsdaName] [length] := by
      rw [avoids_cons, hcounted.length_name]
      exact ⟨by decide, avoids_nil⟩
    have htail : Avoids [augmentationName, lsdaName] (remains ++ [last]) := by
      rw [avoids_append, avoids_cons, hname]
      exact ⟨fun f hf => hcounted.remains_name f hf ▸ by decide, by decide, avoids_nil⟩
    refine .pure ⟨?_, ?_, fun letters' hletters' => ?_⟩
    · rw [hfields, lastShown_append, lastShown_of_avoids htail (by simp), lastShown_append,
        lastShown_of_avoids havoids (by simp), lastShown_append,
        lastShown_of_avoids hlength (by simp), h.augmentation_eq, hdown.augmentation_eq]
    · rw [hfields, lsdaEncodingOf, lastShown_append, lastShown_of_avoids htail (by simp),
        lastShown_append, lastShown_append, lastShown_of_avoids hlsda (by simp),
        lastShown_of_avoids hlength (by simp), hdown.lsdaEncoding_eq]
      rfl
    · rw [hdown.augmentation_eq, hletters] at hletters'
      cases hletters'
      exact ⟨_, _, _, _, hcounted.augmented h.toTiled (h.avoids.mono (by simp)) hlast hname
        (by decide)⟩

/-- A part that only some records have, before what all of them have. -/
theorem Gives.optional {p : Prop} [Decidable p] {long short : Reader β} {s : String}
    (h : Front src start s c)
    (hlong : (∀ c, Front src start s c → Gives short c Q) → Gives long c Q)
    (hshort : ∀ c, Front src start s c → Gives short c Q) :
    Gives (if p then long else short) c Q :=
  .ite (fun _ => hlong hshort) fun _ => hshort c h

/-- A signed number, read by hand, and what comes after it. -/
theorem Gives.signedField {n s : String} {k : Reader β} (h : Front src start s c)
    (hn : n ∉ namesInUse) (hk : ∀ c', Front src start s c' → Gives k c' Q) :
    Gives (do
      let start ← Reader.here
      let x ← Reader.ofExcept (Leb128.signed (← Reader.visible src) start)
      Reader.advance x.2
      Reader.push src start n (Text.signedDecimal x.1.toInt)
      k) c Q := by
  have hfield := Gives.front (k := fun _ => k)
    (m := fun start => do
      let x ← Reader.ofExcept (Leb128.signed (← Reader.visible src) start)
      Reader.advance x.2
      return x)
    (v := fun x => Text.signedDecimal x.1.toInt) h hn moves_signed fun _ => hk
  simpa only [bind_assoc, pure_bind] using hfield

theorem gives_cieBody (h : Front src start "" c) :
    Gives (cieBody src) c fun layout c' => ShowsLayout src start layout c'.fields := by
  simp only [cieBody, pure_bind]
  refine .front (m := fun _ => Reader.byte src .cieVersion) h (by decide) (moves_byte _)
    fun version c₁ h₁ => ?_
  refine .bind ((gives_augmentationField h₁).mono fun augmentation c₂ h₂ => ?_)
  refine .optional h₂ (fun hrest => ?_) fun c₃ h₃ => ?_
  · exact .front (m := fun _ => Reader.take src .ehData src.pointerSize) h₂ (by decide)
      (moves_take _ _) fun _ => hrest
  refine .bind (.bind ((gives_ulebField _ h₃.toTiled).mono ?_))
  rintro _ c₄ ⟨f, hadds, hname, _⟩
  have h₄ : Front src start augmentation c₄ := h₃.add hadds (hname ▸ by decide)
  refine .pure (.signedField h₄ (by decide) fun c₅ h₅ => ?_)
  by_cases hversion : version < 3
  · simp only [if_pos hversion]
    exact .front (m := fun _ => Reader.byte src .returnRegister) h₅ (by decide) (moves_byte _)
      fun register c₆ h₆ => gives_cieEnd h₆
  · simp only [if_neg hversion]
    exact .front (m := fun _ => Reader.uleb128 src) h₅ (by decide) moves_uleb128
      fun register c₆ h₆ => gives_cieEnd h₆

theorem gives_fdeBody (layout : Layout) (h : Front src start "" c) :
    Gives (fdeBody src layout) c fun _ c' => ∀ letters,
      augmentationLetters? layout.augmentation = some letters →
        ∃ before length data last, Augmented (src.fdeDataEnd layout.lsdaEncoding letters)
          RecordKind.fde.instructionsName start c'.fields before length data last := by
  simp only [fdeBody]
  refine .bind ((gives_pointerField _ _ h.toTiled).mono ?_)
  rintro _ c₁ ⟨f, hadds, hname, _⟩
  have h₁ : Front src start "" c₁ := h.add hadds (hname ▸ by decide)
  refine .front (m := fun _ => Reader.pointer src (Encoding.base layout.fdeEncoding)) h₁
    (by decide) (moves_pointer _) fun range c₂ h₂ => ?_
  split
  next hnone =>
    intro _ c' _ letters hletters
    rw [hnone] at hletters
    cases hletters
  next letters hletters =>
    refine .counted (R := fun _ _ => True) (src.fdeDataEnd layout.lsdaEncoding letters)
      h₂.toTiled ?_ ?_
    · intro pos length c h
      refine (gives_fdeLetters layout _ letters h).mono ?_
      rintro _ c' ⟨data, hadds, havoids, hend⟩
      exact ⟨data, hadds, havoids, trivial, hend⟩
    intro _ length data remains c₃ hcounted _
    refine .get_bind ((gives_remainder _ _ hcounted.toTiled).mono ?_)
    rintro _ c₄ ⟨last, hlast, hname, _⟩ letters' hletters'
    rw [hletters] at hletters'
    cases hletters'
    exact ⟨_, _, _, _, hcounted.augmented h₂.toTiled (h₂.avoids.mono (by simp)) hlast hname
      (by decide)⟩

end Bodies

end MachInspect.Frame
