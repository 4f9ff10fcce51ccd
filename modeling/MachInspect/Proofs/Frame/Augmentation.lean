-- SUMMARY: Augmentation data of call-frame records take exactly the bytes that are declared for them.
import MachInspect.Proofs.Frame.Letters
import MachInspect.Proofs.Frame.Walk

/-!
# Augmentation data

The walk keeps its groups explained: the layouts that it knows are those that the fields of the
common records show, and so the frame records of a group carry the data that the letters of its
common record ask for. Every record without an error has exactly the data that it declares.
-/
namespace MachInspect.Frame

/-! ## Records -/

section Records

variable {α : Type} {src : Source} {offset : Nat} {c : Cursor} {id : UInt32}
  {idStart declared next : Nat}

theorem avoids_lengthShown (src : Source) (offset : Nat) :
    Avoids namesInUse (src.lengthShown offset) := by
  have hlength : "Length" ∉ namesInUse := by decide
  have hextended : "Extended Length" ∉ namesInUse := by decide
  unfold Source.lengthShown
  split <;> simp [hlength, hextended]

/-- After its identifier, a record is before its augmentation data. -/
theorem front_of_head (hoffset : offset ≤ src.data.length)
    (hhead : head src offset = .body c id idStart declared next) (name text : String)
    (hname : name ∉ namesInUse) :
    ∃ c', exec (Reader.push src idStart name text) c = (.ok ⟨⟩, c') ∧
      Front src offset "" c' := by
  have hfields := fields_of_head hoffset hhead
  have hplace := headAt_head hoffset
  rw [hhead] at hplace
  cases hplace with
  | body nonzero id_eq tiles pos_eq limit_eq pos_le =>
    have hinside : c.Inside src := ⟨pos_le, limit_eq ▸ Nat.min_le_right _ _⟩
    obtain ⟨c', hpush, htiled, -, -⟩ := exec_push_tiled name text tiles
      (pos_eq ▸ Nat.le_add_right _ _) hinside
    have hpush' := hpush
    rw [Reader.push, exec_modify] at hpush'
    have hshown : c'.fields = c.fields ++ [_] := (congrArg (fun x => x.2.fields) hpush').symm
    have hplain : Avoids namesInUse c'.fields := by
      rw [hshown, hfields, avoids_append, avoids_cons]
      exact ⟨avoids_lengthShown src offset, hname, avoids_nil⟩
    exact ⟨c', hpush, htiled, hplain.mono (by decide), lastShown_of_avoids hplain (by decide)⟩

/-- What the body of a record gives, from its identifier on. -/
theorem gives_record {body : Reader α} {post : α → Cursor → Prop}
    (hoffset : offset ≤ src.data.length)
    (hhead : head src offset = .body c id idStart declared next) (name text : String)
    (hname : name ∉ namesInUse)
    (hbody : ∀ {c : Cursor}, Front src offset "" c → Gives body c post) :
    Gives (do Reader.push src idStart name text; body) c post := by
  obtain ⟨c', hpush, hfront⟩ := front_of_head hoffset hhead name text hname
  intro a c'' hexec
  rw [exec_bind_ok hpush] at hexec
  exact hbody hfront a c'' hexec

end Records

/-! ## Walks -/

section Walks

variable {src : Source} {w : Walk} {offset : Nat} {c : Cursor} {id : UInt32}
  {idStart declared next : Nat}

/-- The record is read in full, around augmentation data that end no earlier than `dataEnd` says. -/
def Record.Exact (r : Record) (dataEnd : Nat → Nat) : Prop :=
  ∃ before length data last,
    Augmented dataEnd r.kind.instructionsName r.offset r.fields before length data last

/-- The augmentation data of all records of a group that have no error are as they should be. -/
structure Group.Explained (src : Source) (g : Group) : Prop where
  kind_eq : g.cie.kind = .cie
  cie : g.cie.error = none → ∃ layout, ShowsLayout src g.cie.offset layout g.cie.fields
  fdes : ∀ r ∈ g.fdes, r.kind = .fde ∧ (r.error = none → ∀ letters,
    augmentationLetters? g.cie.augmentation = some letters →
      r.Exact (src.fdeDataEnd g.cie.lsdaEncoding letters))

/-- The groups of a walk are explained, and the layouts that it knows are those that the common
records show. -/
structure Walk.Explained (src : Source) (w : Walk) : Prop where
  groups : ∀ g ∈ w.groups, g.Explained src
  known : ∀ k ∈ w.known, ∀ layout, k.layout = some layout →
    ∃ g, w.groups[k.group]? = some g ∧ ShowsLayout src g.cie.offset layout g.cie.fields

theorem Walk.explained_empty : Walk.Explained src {} := by
  constructor <;> simp

theorem Walk.Explained.warn (h : w.Explained src) (warning : String) :
    (w.warn warning).Explained src :=
  ⟨h.groups, h.known⟩

theorem Walk.Explained.warnRecord (h : w.Explained src) (r : Record) :
    (w.warnRecord r).Explained src :=
  ⟨by simpa using h.groups, by simpa using h.known⟩

theorem of_toOption_checkExtent {α : Type} {result : Except Error α} {a : α}
    (h : (checkExtent src declared result).toOption = some a) : result = .ok a := by
  cases result with
  | error e => cases h
  | ok b =>
    unfold checkExtent at h
    dsimp only at h
    split at h <;> cases h
    rfl

theorem Walk.Explained.addGroup {r : Record} {layout? : Option Layout} (h : w.Explained src)
    (hkind : r.kind = .cie)
    (hcie : r.error = none → ∃ layout, ShowsLayout src r.offset layout r.fields)
    (hlayout : ∀ layout, layout? = some layout → ShowsLayout src r.offset layout r.fields) :
    Walk.Explained src
      { w with
        groups := w.groups ++ [⟨w.groups.length, r, []⟩]
        known := w.known ++ [⟨offset, w.groups.length, layout?⟩] } := by
  refine ⟨fun g hg => ?_, fun k hk layout hk' => ?_⟩
  · rcases List.mem_append.mp hg with hold | hnew
    · exact h.groups g hold
    · obtain rfl := List.mem_singleton.mp hnew
      exact ⟨hkind, hcie, fun r hr => absurd hr List.not_mem_nil⟩
  · rcases List.mem_append.mp hk with hold | hnew
    · obtain ⟨g, hg, hshows⟩ := h.known k hold layout hk'
      have hlt := (List.getElem?_eq_some_iff.mp hg).1
      exact ⟨g, (List.getElem?_append_left hlt).trans hg, hshows⟩
    · obtain rfl := List.mem_singleton.mp hnew
      exact ⟨_, List.getElem?_concat_length, hlayout layout hk'⟩

theorem Walk.Explained.addCie (h : w.Explained src) (hoffset : offset ≤ src.data.length)
    (hhead : head src offset = .body c id idStart declared next) :
    (w.addCie src offset c idStart declared).Explained src := by
  have hgives := gives_record hoffset hhead "CIE ID" "0" (by decide) gives_cieBody
  unfold Walk.addCie
  refine Walk.Explained.warnRecord (h.addGroup rfl (fun hnone => ?_) fun layout hlayout => ?_) _
  · obtain ⟨⟨layout, hok⟩, -⟩ := of_failure?_checkExtent hnone
    exact ⟨layout, hgives layout _ (Prod.ext hok rfl)⟩
  · exact hgives layout _ (Prod.ext (of_toOption_checkExtent hlayout) rfl)

theorem Group.Explained.add {g : Group} {r : Record} (h : g.Explained src)
    (hkind : r.kind = .fde)
    (hr : r.error = none → ∀ letters, augmentationLetters? g.cie.augmentation = some letters →
      r.Exact (src.fdeDataEnd g.cie.lsdaEncoding letters)) :
    Group.Explained src { g with fdes := g.fdes ++ [r] } := by
  refine ⟨h.kind_eq, h.cie, fun r' hr' => ?_⟩
  rcases List.mem_append.mp hr' with hold | hnew
  · exact h.fdes r' hold
  · obtain rfl := List.mem_singleton.mp hnew
    exact ⟨hkind, hr⟩

theorem Walk.Explained.addFrame {known : Known} {r : Record} (h : w.Explained src)
    (hkind : r.kind = .fde)
    (hr : ∀ g, w.groups[known.group]? = some g → r.error = none → ∀ letters,
      augmentationLetters? g.cie.augmentation = some letters →
        r.Exact (src.fdeDataEnd g.cie.lsdaEncoding letters)) :
    Walk.Explained src { w with groups := addFde w.groups known.group r } := by
  refine ⟨fun g hg => ?_, fun k hk layout hlayout => ?_⟩
  · obtain ⟨j, hj⟩ := List.mem_iff_getElem?.mp hg
    obtain ⟨g₀, hg₀, rfl⟩ := getElem?_addFde hj
    have hgroup := h.groups g₀ (List.mem_of_getElem? hg₀)
    split
    next heq => exact hgroup.add hkind (hr g₀ (heq ▸ hg₀))
    · exact hgroup
  · obtain ⟨g, hg, hshows⟩ := h.known k hk layout hlayout
    refine ⟨if known.group = k.group then { g with fdes := g.fdes ++ [r] } else g, ?_, ?_⟩
    · simp only [addFde, List.getElem?_modify, hg]
      rfl
    · split <;> exact hshows

theorem Walk.Explained.addFdeAt (h : w.Explained src) (hoffset : offset ≤ src.data.length)
    (hhead : head src offset = .body c id idStart declared next) :
    (w.addFdeAt src offset c id idStart declared).Explained src := by
  have hgives (layout : Layout) (text : String) :=
    gives_record hoffset hhead "CIE Pointer" text (by decide) (gives_fdeBody layout)
  unfold Walk.addFdeAt
  cases hreferred : w.referred? idStart id with
  | none => exact h.warn _
  | some known =>
    obtain ⟨hmem, -⟩ := mem_of_referred? hreferred
    cases hlayout : known.layout with
    | none =>
      simp only [hlayout]
      exact h.warn _
    | some layout =>
      simp only [hlayout]
      refine Walk.Explained.warnRecord (h.addFrame rfl ?_) _
      intro g hg hnone letters hletters
      obtain ⟨g', hg', hshows⟩ := h.known known hmem layout hlayout
      obtain rfl := Option.some.inj (hg.symm.trans hg')
      obtain ⟨⟨u, hok⟩, -⟩ := of_failure?_checkExtent hnone
      have haugmentation : g.cie.augmentation = layout.augmentation := hshows.augmentation_eq
      have hlsda : g.cie.lsdaEncoding = layout.lsdaEncoding := hshows.lsdaEncoding_eq
      rw [hlsda]
      exact hgives layout _ u _ (Prod.ext hok rfl) letters (haugmentation ▸ hletters)

/-- Every step keeps the groups explained. -/
theorem Walk.Explained.step (h : w.Explained src) (hoffset : offset ≤ src.data.length) :
    (w.step src offset).1.Explained src := by
  unfold Walk.step
  cases hhead : head src offset with
  | stop warning =>
    cases warning with
    | none => exact h
    | some warning => exact h.warn warning
  | skip warning next => exact h.warn warning
  | body c id idStart declared next =>
    dsimp only
    split
    · exact h.addCie hoffset hhead
    · exact h.addFdeAt hoffset hhead

/-- So does the whole walk. -/
theorem Walk.Explained.run (h : w.Explained src) : (w.run src offset).Explained src := by
  fun_induction Walk.run src w offset with
  | case1 w offset inside last hstep =>
    have hlast := h.step (Nat.le_of_lt inside)
    rwa [hstep] at hlast
  | case2 w offset inside w' next hstep hlt ih =>
    have hnext := h.step (Nat.le_of_lt inside)
    rw [hstep] at hnext
    exact ih hnext
  | case3 w offset inside w' next hstep hge =>
    have hnext := h.step (Nat.le_of_lt inside)
    rwa [hstep] at hnext
  | case4 w offset past => exact h

end Walks

/-! ## Listings -/

section Listings

variable (index : SymbolIndex) (home : Section)

/-- Where the data that letters ask for end in a record of the group, from `pos` on. -/
def Group.dataEnd (src : Source) (g : Group) (letters : List Char) : RecordKind → Nat → Nat
  | .cie => src.cieDataEnd letters
  | .fde => src.fdeDataEnd g.cie.lsdaEncoding letters

/-- By the length that the record shows, its letters ask for more than is declared, or the declared
data go past the end of the record. -/
def Record.Overruns (src : Source) (dataEnd : Nat → Nat) (r : Record) : Prop :=
  ∃ k, ∃ length ∈ r.fields[k]?, length.name = lengthName ∧
    (r.fieldStart (k + 1) + Leb128.value length.bytes < dataEnd (r.fieldStart (k + 1)) ∨
      src.declaredEnd r.offset < r.fieldStart (k + 1) + Leb128.value length.bytes)

theorem Group.Explained.exact {src : Source} {g : Group} (h : g.Explained src)
    {letters : List Char} (hletters : augmentationLetters? g.cie.augmentation = some letters)
    {r : Record} (hr : r ∈ g.cie :: g.fdes) (hnone : r.error = none) :
    r.Exact (g.dataEnd src letters r.kind) := by
  rcases List.mem_cons.mp hr with rfl | hfde
  · obtain ⟨layout, hshows⟩ := h.cie hnone
    have haugmentation : g.cie.augmentation = layout.augmentation := hshows.augmentation_eq
    rw [Record.Exact, h.kind_eq]
    exact hshows.augmented letters (haugmentation ▸ hletters)
  · obtain ⟨hkind, hexact⟩ := h.fdes r hfde
    rw [hkind]
    exact hexact hnone letters hletters

/-- The length of augmentation data is the only field with its name. -/
theorem Augmented.eq_length {dataEnd : Nat → Nat} {name : String} {start k : Nat}
    {fields before data : List Field} {length last f : Field}
    (h : Augmented dataEnd name start fields before length data last) (hf : f ∈ fields[k]?)
    (hname : f.name = lengthName) : k = before.length ∧ f = length := by
  have hother : f ∉ before ++ (data ++ [last]) := fun hmem =>
    h.unique f hmem (hname ▸ List.mem_singleton_self _)
  rw [List.mem_append, not_or] at hother
  rw [h.fields_eq, Option.mem_def] at hf
  rcases Nat.lt_trichotomy k before.length with hlt | rfl | hgt
  · rw [List.getElem?_append_left hlt] at hf
    exact absurd (List.mem_of_getElem? hf) hother.1
  · simp only [List.getElem?_append_right (Nat.le_refl _), Nat.sub_self] at hf
    exact ⟨rfl, (Option.some.inj hf).symm⟩
  · obtain ⟨j, rfl⟩ := Nat.exists_eq_add_of_lt hgt
    have hj : before.length + j + 1 - before.length = j + 1 := by omega
    rw [List.getElem?_append_right (by omega), hj, List.getElem?_cons_succ] at hf
    exact absurd (List.mem_of_getElem? hf) hother.2

theorem Record.Exact.not_overruns {src : Source} {dataEnd : Nat → Nat} {r : Record}
    (h : r.Exact dataEnd) (hend : r.offset + covered r.fields = src.declaredEnd r.offset) :
    ¬ r.Overruns src dataEnd := by
  rintro ⟨k, f, hf, hname, hover⟩
  obtain ⟨before, length, data, last, haugmented⟩ := h
  obtain ⟨rfl, rfl⟩ := haugmented.eq_length hf hname
  have hfields : r.fields = before ++ [f] ++ (data ++ [last]) := by
    rw [haugmented.fields_eq, List.append_assoc, List.singleton_append]
  have hstart : r.fieldStart (before.length + 1) = r.offset + covered (before ++ [f]) := by
    have hlength : (before ++ [f]).length = before.length + 1 := by simp
    rw [Record.fieldStart, hfields, ← hlength, List.take_left]
  have hdata : covered (before ++ f :: data) = covered (before ++ [f]) + covered data := by
    rw [← covered_append, List.append_assoc, List.singleton_append]
  have hrecord : covered r.fields = covered (before ++ [f]) + covered data + covered [last] := by
    rw [hfields, covered_append _ (data ++ [last]), covered_append data, Nat.add_assoc]
  have henough := haugmented.dataEnd_le
  rw [hdata, haugmented.covered_eq, ← Nat.add_assoc, ← hstart] at henough
  rw [haugmented.covered_eq] at hrecord
  omega

/-- Augmentation data are consumed exactly, whatever the letters and the encodings are. In every
record without an error whose common record has an augmentation string that starts with `z`, the
fields between the length of the augmentation data, of which there is one, and the instructions at
the end take as many bytes as the length says, and the letters ask for no more. A record whose
letters ask for more than is declared, or whose declared data go past its end, has an error. -/
theorem augmentation_data_consumed_exactly :
    ∀ g ∈ (Listing.of index home).groups, ∀ letters,
      augmentationLetters? g.cie.augmentation = some letters → ∀ r ∈ g.cie :: g.fdes,
        (r.error = none → ∃ before length data last,
          Augmented (g.dataEnd (sourceOf index home) letters r.kind) r.kind.instructionsName r.offset
            r.fields before length data last) ∧
        (r.Overruns (sourceOf index home) (g.dataEnd (sourceOf index home) letters r.kind) →
          r.error.isSome = true) := by
  intro g hg letters hletters r hr
  have hwalk : Walk.Explained (sourceOf index home)
      (Walk.run (sourceOf index home) {} 0) := Walk.explained_empty.run
  have hexact := (hwalk.groups g hg).exact hletters hr
  refine ⟨hexact, fun hoverruns => ?_⟩
  cases herror : r.error with
  | some e => rfl
  | none =>
    have hmem : r ∈ members (Listing.of index home).groups := List.mem_flatMap.mpr ⟨g, hg, hr⟩
    obtain ⟨stop, htiled⟩ := exists_tiledTo index home hmem
    have hend := htiled.tiles.stop_eq.symm.trans (htiled.complete herror)
    exact absurd hoverruns ((hexact herror).not_overruns hend)

/-- A common record with one letter and a byte more than it asks for, a frame record without data,
and one that declares more than it has room for. -/
def countedFrames : Section :=
  ⟨1, "__TEXT", "__eh_frame", 0x1000, 72, 0, 0, 0, 0, 0,
    [20, 0, 0, 0, 0, 0, 0, 0, 1, 0x7a, 0x52, 0, 1, 0x78, 0x10, 2, 0x1b, 0xaa, 0, 0, 0, 0, 0, 0,
     20, 0, 0, 0, 28, 0, 0, 0, 0xe0, 0xff, 0xff, 0xff, 16, 0, 0, 0, 0, 0, 0, 0, 0, 0, 0, 0,
     20, 0, 0, 0, 52, 0, 0, 0, 0xe0, 0xff, 0xff, 0xff, 16, 0, 0, 0, 0x7f, 0, 0, 0, 0, 0, 0, 0],
    []⟩

def countedIndex : SymbolIndex :=
  SymbolIndex.build (Image.ofParts 0x1000007 3 1 0 .little [countedFrames] [])

theorem counted_data_consumed_exactly :
    ∃ g ∈ (Listing.of countedIndex countedFrames).groups,
      (∃ r ∈ g.cie :: g.fdes, r.error = none ∧ ∃ before length data last,
        Augmented (g.dataEnd (sourceOf countedIndex countedFrames) ['R'] r.kind)
          r.kind.instructionsName r.offset r.fields before length data last) ∧
      ∃ r ∈ g.cie :: g.fdes, r.Overruns (sourceOf countedIndex countedFrames)
        (g.dataEnd (sourceOf countedIndex countedFrames) ['R'] r.kind) ∧ r.error.isSome = true := by
  have hfound : ∃ g ∈ (Listing.of countedIndex countedFrames).groups,
      augmentationLetters? g.cie.augmentation = some ['R'] ∧
      (∃ r ∈ g.cie :: g.fdes, r.error = none) ∧
      ∃ r ∈ g.cie :: g.fdes, ∃ length ∈ r.fields[4]?, length.name = lengthName ∧
        (r.fieldStart 5 + Leb128.value length.bytes <
            g.dataEnd (sourceOf countedIndex countedFrames) ['R'] r.kind (r.fieldStart 5) ∨
          (sourceOf countedIndex countedFrames).declaredEnd r.offset <
            r.fieldStart 5 + Leb128.value length.bytes) := by
    decide +kernel
  obtain ⟨g, hg, hletters, ⟨r, hr, hnone⟩, r', hr', hoverruns⟩ := hfound
  have hall := augmentation_data_consumed_exactly countedIndex countedFrames g hg ['R'] hletters
  exact ⟨g, hg, ⟨r, hr, hnone, (hall r hr).1 hnone⟩, r', hr', ⟨4, hoverruns⟩,
    (hall r' hr').2 ⟨4, hoverruns⟩⟩

end Listings

end MachInspect.Frame
