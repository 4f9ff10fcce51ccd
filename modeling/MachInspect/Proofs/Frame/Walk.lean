-- SUMMARY: The walk over call-frame records: the starts it visits, and what it makes of each.
import MachInspect.Proofs.Frame.Heads

/-!
# Walks over call-frame sections

`Stepped` says once what a step of the walk can do; everything about whole walks follows from it.
Each start that is visited opens a group, adds a frame record to one, leaves a warning, or ends the
walk. `Visits` is the walk without any guard against standing still: every step moves on, so it
comes to an end on all bytes, and it gives what `Walk.run` gives.
-/
namespace MachInspect.Frame

/-! ## Outcomes -/

/-- What the walk makes of one record start. -/
inductive Outcome where
  /-- A common record, which opens a group. -/
  | cie (record : Record)
  /-- A frame record, which joins the group with this number. -/
  | fde (group : Nat) (record : Record)
  /-- A warning in place of a record. -/
  | skipped (warning : String)
  /-- The end of the walk. -/
  | ended
  deriving DecidableEq

/-- The warning about a record that could not be decoded in full. -/
def Record.warnings (r : Record) : List String :=
  match r.error with
  | some e => [r.title ++ " at " ++ Text.hex r.address.toNat ++ ": " ++ e.message]
  | none => []

namespace Outcome

/-- The groups after the outcome. -/
def groups (before : List Group) : Outcome → List Group
  | cie r => before ++ [⟨before.length, r, []⟩]
  | fde k r => addFde before k r
  | skipped _ | ended => before

/-- The warnings that come with the outcome. -/
def warnings : Outcome → List String
  | cie r | fde _ r => r.warnings
  | skipped warning => [warning]
  | ended => []

def record? : Outcome → Option Record
  | cie r | fde _ r => some r
  | skipped _ | ended => none

def isSkipped : Outcome → Bool
  | skipped _ => true
  | cie _ | fde _ _ | ended => false

end Outcome

/-- All records of some groups, group by group. -/
def members (groups : List Group) : List Record := groups.flatMap fun g => g.cie :: g.fdes

/-! ## Steps -/

section Steps

variable {src : Source} {w w' : Walk} {offset : Nat} {o : Outcome} {next? : Option Nat}

/-- The record was read at `offset`, and its fields tile it. -/
structure Record.ReadAt (src : Source) (offset : Nat) (kind : RecordKind) (r : Record) : Prop where
  kind_eq : r.kind = kind
  offset_eq : r.offset = offset
  address_eq : r.address = src.addressAt offset
  tiled : ∃ stop, r.TiledTo src stop

/-- All that a step of the walk can do at `offset`. -/
inductive Stepped (src : Source) (w : Walk) (offset : Nat) :
    Outcome → Walk → Option Nat → Prop where
  | ended (zero : src.ZeroAt offset) : Stepped src w offset .ended w none
  | skipped {warning : String} {next? : Option Nat} (nonzero : ¬ src.ZeroAt offset)
      (forward : ∀ next ∈ next?, offset < next) :
      Stepped src w offset (.skipped warning) (w.warn warning) next?
  | cie {r : Record} {layout? : Option Layout} {next : Nat} (nonzero : ¬ src.ZeroAt offset)
      (read : r.ReadAt src offset .cie) (number : r.number = w.groups.length)
      (decoded : layout?.isSome = true → r.error = none) (forward : offset < next) :
      Stepped src w offset (.cie r)
        (Walk.warnRecord
          { w with
            groups := w.groups ++ [⟨w.groups.length, r, []⟩]
            known := w.known ++ [⟨offset, w.groups.length, layout?⟩] } r)
        (some next)
  | fde {r : Record} {known : Known} {next : Nat} (nonzero : ¬ src.ZeroAt offset)
      (read : r.ReadAt src offset .fde) (mem : known ∈ w.known)
      (usable : known.layout.isSome = true)
      (refers : known.offset + src.idAt offset = src.idStart offset)
      (number : ∀ g, w.groups[known.group]? = some g → r.number = g.fdes.length)
      (forward : offset < next) :
      Stepped src w offset (.fde known.group r)
        (Walk.warnRecord { w with groups := addFde w.groups known.group r } r) (some next)

theorem mem_of_referred? {idStart : Nat} {id : UInt32} {known : Known}
    (h : w.referred? idStart id = some known) :
    known ∈ w.known ∧ known.offset + id.toNat = idStart := by
  unfold Walk.referred? at h
  split at h
  · have hoffset := List.find?_some h
    simp only [beq_iff_eq] at hoffset
    exact ⟨List.mem_of_find?_eq_some h, by omega⟩
  · cases h

theorem stepped_addCie {c : Cursor} {id : UInt32} {idStart declared next : Nat}
    (hhead : HeadAt src offset (.body c id idStart declared next)) :
    ∃ r, Stepped src w offset (.cie r) (w.addCie src offset c idStart declared) (some next) := by
  have htiled := tiledTo_of_keeps keeps_cieBody hhead .cie w.groups.length "CIE ID" "0"
  cases hhead with
  | body nonzero =>
    refine ⟨_, .cie nonzero ⟨rfl, rfl, rfl, _, htiled⟩ rfl ?_ (lt_nextStart src offset)⟩
    intro hdecoded
    generalize checkExtent src _ _ = result at hdecoded
    cases result with
    | error e => cases hdecoded
    | ok layout => rfl

theorem stepped_addFdeAt {c : Cursor} {id : UInt32} {idStart declared next : Nat}
    (hhead : HeadAt src offset (.body c id idStart declared next)) :
    ∃ o, Stepped src w offset o (w.addFdeAt src offset c id idStart declared) (some next) := by
  have htiled (layout : Layout) (number : Nat) (text : String) :=
    tiledTo_of_keeps (keeps_fdeBody layout) hhead .fde number "CIE Pointer" text
  unfold Walk.addFdeAt
  cases hhead with
  | body nonzero id_eq =>
    have hskipped (warning : String) : Stepped src w offset (.skipped warning) (w.warn warning)
        (some (src.nextStart offset)) :=
      .skipped nonzero fun next hnext => Option.some.inj hnext ▸ lt_nextStart src offset
    cases hreferred : w.referred? (src.idStart offset) id with
    | none => exact ⟨_, hskipped _⟩
    | some known =>
      obtain ⟨hmem, hrefers⟩ := mem_of_referred? hreferred
      cases hlayout : known.layout with
      | none =>
        simp only [hlayout]
        exact ⟨_, hskipped _⟩
      | some layout =>
        simp only [hlayout]
        refine ⟨_, .fde nonzero ⟨rfl, rfl, rfl, _, htiled layout _ _⟩ hmem (by simp [hlayout])
          (id_eq ▸ hrefers) ?_ (lt_nextStart src offset)⟩
        intro g hg
        simp only [hg]

/-- Every step is one of these. -/
theorem stepped_step (w : Walk) (hoffset : offset ≤ src.data.length) :
    ∃ o, Stepped src w offset o (w.step src offset).1 (w.step src offset).2 := by
  have hhead := headAt_head hoffset
  unfold Walk.step
  generalize head src offset = found at hhead
  cases hhead with
  | unusable warning _ nonzero => exact ⟨_, .skipped nonzero fun next hnext => nomatch hnext⟩
  | zero zero => exact ⟨_, .ended zero⟩
  | nameless warning _ nonzero =>
    exact ⟨_, .skipped nonzero fun next hnext => Option.some.inj hnext ▸ lt_nextStart src offset⟩
  | @body c id nonzero id_eq tiles pos_eq limit_eq pos_le =>
    have hbody : HeadAt src offset _ := .body nonzero id_eq tiles pos_eq limit_eq pos_le
    dsimp only
    split
    · obtain ⟨r, hr⟩ := stepped_addCie (w := w) hbody
      exact ⟨_, hr⟩
    · exact stepped_addFdeAt hbody

theorem Stepped.forward (h : Stepped src w offset o w' next?) : ∀ next ∈ next?, offset < next := by
  cases h with
  | ended => exact fun next hnext => nomatch hnext
  | skipped _ forward => exact forward
  | cie _ _ _ _ forward => exact fun next hnext => Option.some.inj hnext ▸ forward
  | fde _ _ _ _ _ _ forward => exact fun next hnext => Option.some.inj hnext ▸ forward

theorem Stepped.ne_ended {next : Nat} (h : Stepped src w offset o w' (some next)) : o ≠ .ended := by
  rintro rfl
  cases h

theorem Walk.lt_of_step {next : Nat} (hoffset : offset ≤ src.data.length)
    (h : w.step src offset = (w', some next)) : offset < next := by
  obtain ⟨o, hstepped⟩ := stepped_step w hoffset
  rw [h] at hstepped
  exact hstepped.forward next rfl

end Steps

/-! ## Warnings about records -/

section Warnings

variable (w : Walk) (r : Record)

@[simp] theorem groups_warnRecord : (w.warnRecord r).groups = w.groups := by
  unfold Walk.warnRecord
  split <;> rfl

@[simp] theorem known_warnRecord : (w.warnRecord r).known = w.known := by
  unfold Walk.warnRecord
  split <;> rfl

theorem warnings_warnRecord : (w.warnRecord r).warnings = w.warnings ++ r.warnings := by
  unfold Walk.warnRecord Record.warnings
  cases r.error with
  | none => exact (List.append_nil _).symm
  | some e => rfl

theorem Record.length_warnings : r.warnings.length = if r.error.isSome then 1 else 0 := by
  unfold Record.warnings
  cases r.error <;> rfl

end Warnings

/-! ## Groups -/

section Groups

variable {src : Source} {w w' : Walk} {offset bound : Nat} {o : Outcome} {next? : Option Nat}

/-- The record is frame record `j` of the group that `cie` opens. -/
structure FrameOf (src : Source) (cie : Record) (j : Nat) (r : Record) : Prop where
  kind_eq : r.kind = .fde
  number_eq : r.number = j
  after : cie.offset < r.offset
  decoded : cie.error = none
  /-- It refers back from its identifier to the start of the common record. -/
  refers : cie.offset + src.idAt r.offset = src.idStart r.offset

/-- The group is group `k`, and its frame records are in order. -/
structure Group.Sound (src : Source) (k : Nat) (g : Group) : Prop where
  number_eq : g.number = k
  kind_eq : g.cie.kind = .cie
  cie_number : g.cie.number = k
  fdes : ∀ (j : Nat) (r : Record), g.fdes[j]? = some r → FrameOf src g.cie j r

/-- What the groups and the common records that a walk knows are, when it has come to `bound`. -/
structure Walk.Sound (src : Source) (bound : Nat) (w : Walk) : Prop where
  groups : ∀ (k : Nat) (g : Group), w.groups[k]? = some g → g.Sound src k
  before : ∀ g ∈ w.groups, g.cie.offset < bound
  known : ∀ k ∈ w.known, ∃ g, w.groups[k.group]? = some g ∧ g.cie.offset = k.offset ∧
    (k.layout.isSome = true → g.cie.error = none)

theorem Walk.Sound.mono {later : Nat} (h : w.Sound src bound) (hle : bound ≤ later) :
    w.Sound src later :=
  ⟨h.groups, fun g hg => Nat.lt_of_lt_of_le (h.before g hg) hle, h.known⟩

theorem Walk.sound_empty : Walk.Sound src bound {} := by
  constructor <;> simp

theorem getElem?_addFde {groups : List Group} {k j : Nat} {r : Record} {g : Group}
    (h : (addFde groups k r)[j]? = some g) :
    ∃ g₀, groups[j]? = some g₀ ∧ g = if k = j then { g₀ with fdes := g₀.fdes ++ [r] } else g₀ := by
  rw [addFde, List.getElem?_modify] at h
  obtain ⟨g₀, hg₀, rfl⟩ := Option.map_eq_some_iff.mp h
  exact ⟨g₀, hg₀, rfl⟩

theorem Group.Sound.add {k : Nat} {g : Group} {r : Record} (h : g.Sound src k)
    (hr : FrameOf src g.cie g.fdes.length r) :
    Group.Sound src k { g with fdes := g.fdes ++ [r] } := by
  refine ⟨h.number_eq, h.kind_eq, h.cie_number, fun j r' hr' => ?_⟩
  rcases Nat.lt_trichotomy j g.fdes.length with hlt | rfl | hgt
  · rw [List.getElem?_append_left hlt] at hr'
    exact h.fdes j r' hr'
  · obtain rfl : r = r' := by simpa using hr'
    exact hr
  · have hnone : (g.fdes ++ [r])[j]? = none := List.getElem?_eq_none (by simp; omega)
    rw [hnone] at hr'
    cases hr'

/-- A common record opens a group with the next number. -/
theorem Walk.Sound.addGroup {r : Record} {layout? : Option Layout} (h : w.Sound src offset)
    (hread : r.ReadAt src offset .cie) (hnumber : r.number = w.groups.length)
    (hdecoded : layout?.isSome = true → r.error = none) :
    Walk.Sound src (offset + 1)
      { w with
        groups := w.groups ++ [⟨w.groups.length, r, []⟩]
        known := w.known ++ [⟨offset, w.groups.length, layout?⟩] } := by
  refine ⟨fun k g hg => ?_, fun g hg => ?_, fun k hk => ?_⟩
  · rcases Nat.lt_trichotomy k w.groups.length with hlt | rfl | hgt
    · exact h.groups k g ((List.getElem?_append_left hlt).symm.trans hg)
    · obtain rfl := Option.some.inj (List.getElem?_concat_length.symm.trans hg)
      exact ⟨rfl, hread.kind_eq, hnumber, by simp⟩
    · have hnone : (w.groups ++ [⟨w.groups.length, r, []⟩])[k]? = none :=
        List.getElem?_eq_none (by simp; omega)
      rw [hnone] at hg
      cases hg
  · rcases List.mem_append.mp hg with hold | hnew
    · exact Nat.lt_succ_of_lt (h.before g hold)
    · obtain rfl := List.mem_singleton.mp hnew
      exact hread.offset_eq ▸ Nat.lt_succ_self _
  · rcases List.mem_append.mp hk with hold | hnew
    · obtain ⟨g, hg, hoffset, hcie⟩ := h.known k hold
      have hlt := (List.getElem?_eq_some_iff.mp hg).1
      exact ⟨g, (List.getElem?_append_left hlt).trans hg, hoffset, hcie⟩
    · obtain rfl := List.mem_singleton.mp hnew
      exact ⟨_, List.getElem?_concat_length, hread.offset_eq, hdecoded⟩

/-- A frame record joins the group of the common record that it refers to. -/
theorem Walk.Sound.addFrame {r : Record} {known : Known} (h : w.Sound src offset)
    (hread : r.ReadAt src offset .fde) (hmem : known ∈ w.known)
    (husable : known.layout.isSome = true)
    (hrefers : known.offset + src.idAt offset = src.idStart offset)
    (hnumber : ∀ g, w.groups[known.group]? = some g → r.number = g.fdes.length) :
    Walk.Sound src (offset + 1) { w with groups := addFde w.groups known.group r } := by
  have hframe : ∀ g, w.groups[known.group]? = some g → FrameOf src g.cie g.fdes.length r := by
    intro g hg
    obtain ⟨g', hg', hoffset, hdecoded⟩ := h.known known hmem
    obtain rfl := Option.some.inj (hg.symm.trans hg')
    have hbefore := h.before g (List.mem_of_getElem? hg)
    have hread' := hread.offset_eq
    exact ⟨hread.kind_eq, hnumber g hg, hread' ▸ hbefore, hdecoded husable,
      hread' ▸ hoffset ▸ hrefers⟩
  refine ⟨fun k g hg => ?_, fun g hg => ?_, fun k hk => ?_⟩
  · obtain ⟨g₀, hg₀, rfl⟩ := getElem?_addFde hg
    split
    · rename_i heq
      exact (h.groups k g₀ hg₀).add (hframe g₀ (heq ▸ hg₀))
    · exact h.groups k g₀ hg₀
  · obtain ⟨k, hk⟩ := List.mem_iff_getElem?.mp hg
    obtain ⟨g₀, hg₀, rfl⟩ := getElem?_addFde hk
    have hbefore := Nat.lt_succ_of_lt (h.before g₀ (List.mem_of_getElem? hg₀))
    split <;> exact hbefore
  · obtain ⟨g, hg, hoffset, hcie⟩ := h.known k hk
    refine ⟨if known.group = k.group then { g with fdes := g.fdes ++ [r] } else g, ?_, ?_, ?_⟩
    · simp only [addFde, List.getElem?_modify, hg]
      rfl
    · split <;> exact hoffset
    · split <;> exact hcie

/-- Every step keeps the groups in order. -/
theorem Stepped.sound (h : Stepped src w offset o w' next?) (hsound : w.Sound src offset) :
    w'.Sound src (offset + 1) := by
  have hwarn : ∀ {v : Walk} {r : Record}, v.Sound src (offset + 1) →
      (v.warnRecord r).Sound src (offset + 1) := fun h =>
    ⟨by simpa using h.groups, by simpa using h.before, by simpa using h.known⟩
  cases h with
  | ended => exact hsound.mono (Nat.le_succ _)
  | skipped => exact ⟨hsound.groups, (hsound.mono (Nat.le_succ _)).before, hsound.known⟩
  | cie _ read number decoded => exact hwarn (hsound.addGroup read number decoded)
  | fde _ read mem usable refers number =>
    exact hwarn (hsound.addFrame read mem usable refers number)

end Groups

/-! ## What a start yields -/

section Yields

variable {src : Source} {w w' : Walk} {offset : Nat} {o o' : Outcome} {next? : Option Nat}

/-- The outcome is one that the start at `offset` can have. -/
def Outcome.Fits (src : Source) (w : Walk) (offset : Nat) : Outcome → Prop
  | cie r => ¬ src.ZeroAt offset ∧ r.ReadAt src offset .cie
  | fde k r => ¬ src.ZeroAt offset ∧ r.ReadAt src offset .fde ∧ k < w.groups.length
  | skipped _ => ¬ src.ZeroAt offset
  | ended => src.ZeroAt offset

/-- The start at `offset` takes the walk from `w` to `w'`, and `o` is all that it does. -/
structure Yields (src : Source) (w : Walk) (offset : Nat) (o : Outcome) (w' : Walk) : Prop where
  fits : o.Fits src w offset
  groups_eq : w'.groups = o.groups w.groups
  warnings_eq : w'.warnings = w.warnings ++ o.warnings

theorem Stepped.yields (h : Stepped src w offset o w' next?) (hsound : w.Sound src offset) :
    Yields src w offset o w' := by
  cases h with
  | ended zero => exact ⟨zero, rfl, (List.append_nil _).symm⟩
  | skipped nonzero => exact ⟨nonzero, rfl, rfl⟩
  | cie nonzero read => exact ⟨⟨nonzero, read⟩, groups_warnRecord _ _, warnings_warnRecord _ _⟩
  | fde nonzero read mem =>
    obtain ⟨g, hg, -⟩ := hsound.known _ mem
    have hlt := (List.getElem?_eq_some_iff.mp hg).1
    exact ⟨⟨nonzero, read, hlt⟩, groups_warnRecord _ _, warnings_warnRecord _ _⟩

theorem length_addFde (groups : List Group) (k : Nat) (r : Record) :
    (addFde groups k r).length = groups.length :=
  List.length_modify _ _ _

theorem getElem?_addFde_self {groups : List Group} {k : Nat} (r : Record) (hk : k < groups.length) :
    (addFde groups k r)[k]? = some { groups[k] with fdes := groups[k].fdes ++ [r] } := by
  simp [addFde, hk]

/-- A group with one more frame record is another group. -/
theorem Group.add_ne (g : Group) (r : Record) : { g with fdes := g.fdes ++ [r] } ≠ g := by
  intro h
  simpa using congrArg (·.fdes.length) h

theorem addFde_ne {groups : List Group} {k : Nat} {r : Record} (hk : k < groups.length) :
    addFde groups k r ≠ groups := by
  intro h
  have hat := getElem?_addFde_self r hk
  rw [h, List.getElem?_eq_getElem hk] at hat
  exact Group.add_ne _ r (Option.some.inj hat).symm

/-- The groups tell which frame record was added, and to which of them. -/
theorem addFde_inj {groups : List Group} {k k' : Nat} {r r' : Record} (hk : k < groups.length)
    (h : addFde groups k r = addFde groups k' r') : k = k' ∧ r = r' := by
  have hat := getElem?_addFde_self r hk
  rw [h] at hat
  obtain ⟨g, hg, heq⟩ := getElem?_addFde hat
  obtain rfl := Option.some.inj ((List.getElem?_eq_getElem hk).symm.trans hg)
  split at heq
  · exact ⟨Eq.symm ‹_›, by simpa using heq⟩
  · exact absurd heq (Group.add_ne _ r)

/-- A start has one outcome only. -/
theorem Yields.unique (h : Yields src w offset o w') (h' : Yields src w offset o' w') :
    o = o' := by
  have hgroups := h.groups_eq.symm.trans h'.groups_eq
  have hwarnings := List.append_cancel_left (h.warnings_eq.symm.trans h'.warnings_eq)
  have hfits := h.fits
  have hfits' := h'.fits
  -- The number of groups tells common records from the rest, and the groups tell frame records.
  have hlength := congrArg List.length hgroups
  cases o with
  | cie r =>
    cases o' with
    | cie r' => simpa [Outcome.groups] using hgroups
    | fde k' r' => simp [Outcome.groups, length_addFde] at hlength
    | skipped | ended => simp [Outcome.groups] at hlength
  | fde k r =>
    cases o' with
    | cie r' => simp [Outcome.groups, length_addFde] at hlength
    | fde k' r' =>
      obtain ⟨rfl, rfl⟩ := addFde_inj hfits.2.2 hgroups
      rfl
    | skipped | ended => exact absurd hgroups (addFde_ne hfits.2.2)
  | skipped warning =>
    cases o' with
    | cie r' => simp [Outcome.groups] at hlength
    | fde k' r' => exact absurd hgroups.symm (addFde_ne hfits'.2.2)
    | skipped warning' => simpa [Outcome.warnings] using hwarnings
    | ended => exact absurd hfits' hfits
  | ended =>
    cases o' with
    | cie r' => simp [Outcome.groups] at hlength
    | fde k' r' => exact absurd hgroups.symm (addFde_ne hfits'.2.2)
    | skipped warning' => exact absurd hfits hfits'
    | ended => rfl

theorem members_addFde {groups : List Group} {k : Nat} (r : Record) (hk : k < groups.length) :
    (members (addFde groups k r)).Perm (members groups ++ [r]) := by
  obtain ⟨before, g, after, rfl, -, hmodify⟩ := List.exists_of_modify
    (fun g => { g with fdes := g.fdes ++ [r] }) hk
  rw [addFde, hmodify]
  simp only [members, List.flatMap_append, List.flatMap_cons, List.append_assoc,
    List.cons_append, List.nil_append]
  refine .append_left _ (.cons _ (.append_left _ ?_))
  exact (List.perm_append_singleton r _).symm

/-- The record of the outcome is all that is new among the records. -/
theorem Yields.members_perm (h : Yields src w offset o w') :
    (members w'.groups).Perm (members w.groups ++ o.record?.toList) := by
  rw [h.groups_eq]
  cases o with
  | cie r => simp [Outcome.groups, Outcome.record?, members]
  | fde k r => exact members_addFde r h.fits.2.2
  | skipped | ended => simp [Outcome.groups, Outcome.record?]

theorem Yields.readAt (h : Yields src w offset o w') {r : Record} (hr : o.record? = some r) :
    ∃ kind, r.ReadAt src offset kind := by
  cases o with
  | cie r' => exact ⟨_, Option.some.inj hr ▸ h.fits.2⟩
  | fde k r' => exact ⟨_, Option.some.inj hr ▸ h.fits.2.1⟩
  | skipped | ended => cases hr

end Yields

/-! ## Visits -/

/-- A visit to a record start, with the walk before and after it. -/
structure Visit where
  offset : Nat
  outcome : Outcome
  before : Walk
  after : Walk

section Visits

variable {src : Source} {w last : Walk} {offset : Nat} {trace : List Visit}

/-- The walk from `offset` on: it visits the starts in `trace` and comes to an end with `last`. It
goes wherever its steps lead, with no guard against standing still. -/
inductive Visits (src : Source) : Walk → Nat → List Visit → Walk → Prop where
  | past {w : Walk} {offset : Nat} (past : src.data.length ≤ offset) : Visits src w offset [] w
  | stopped {w last : Walk} {offset : Nat} {o : Outcome} (inside : offset < src.data.length)
      (step : w.step src offset = (last, none)) (yields : Yields src w offset o last) :
      Visits src w offset [⟨offset, o, w, last⟩] last
  | moved {w w' last : Walk} {offset next : Nat} {o : Outcome} {trace : List Visit}
      (inside : offset < src.data.length) (step : w.step src offset = (w', some next))
      (yields : Yields src w offset o w') (more : o ≠ .ended)
      (rest : Visits src w' next trace last) :
      Visits src w offset (⟨offset, o, w, w'⟩ :: trace) last

/-- The walk comes to an end on all bytes, and its guard never stops it. -/
theorem exists_visits (hsound : w.Sound src offset) :
    ∃ trace, Visits src w offset trace (w.run src offset) := by
  fun_induction Walk.run src w offset with
  | case1 w offset inside last hstep =>
    obtain ⟨o, hstepped⟩ := stepped_step w (Nat.le_of_lt inside)
    rw [hstep] at hstepped
    exact ⟨_, .stopped inside hstep (hstepped.yields hsound)⟩
  | case2 w offset inside w' next hstep hlt ih =>
    obtain ⟨o, hstepped⟩ := stepped_step w (Nat.le_of_lt inside)
    rw [hstep] at hstepped
    obtain ⟨trace, hrest⟩ := ih ((hstepped.sound hsound).mono hlt)
    exact ⟨_, .moved inside hstep (hstepped.yields hsound) hstepped.ne_ended hrest⟩
  | case3 w offset inside w' next hstep hge =>
    exact absurd (Walk.lt_of_step (Nat.le_of_lt inside) hstep) hge
  | case4 w offset past => exact ⟨[], .past (Nat.le_of_not_lt past)⟩

theorem Visits.sound (h : Visits src w offset trace last) (hsound : w.Sound src offset) :
    ∃ bound, last.Sound src bound := by
  induction h with
  | past => exact ⟨_, hsound⟩
  | @stopped w last offset o inside step yields =>
    obtain ⟨o', hstepped⟩ := stepped_step w (Nat.le_of_lt inside)
    rw [step] at hstepped
    exact ⟨_, hstepped.sound hsound⟩
  | @moved w w' last offset next o trace inside step yields _ rest ih =>
    obtain ⟨o', hstepped⟩ := stepped_step w (Nat.le_of_lt inside)
    rw [step] at hstepped
    exact ih ((hstepped.sound hsound).mono (hstepped.forward next rfl))

theorem Visits.yields (h : Visits src w offset trace last) :
    ∀ v ∈ trace, Yields src v.before v.offset v.outcome v.after := by
  induction h with
  | past => simp
  | stopped _ _ yields => simpa using yields
  | moved _ _ yields _ _ ih => simpa using ⟨yields, ih⟩

theorem Visits.le_offset (h : Visits src w offset trace last) : ∀ v ∈ trace, offset ≤ v.offset := by
  induction h with
  | past => simp
  | stopped => simp
  | moved inside step _ _ _ ih =>
    have hlt := Walk.lt_of_step (Nat.le_of_lt inside) step
    simpa using fun v hv => Nat.le_trans (Nat.le_of_lt hlt) (ih v hv)

theorem Visits.increasing (h : Visits src w offset trace last) :
    trace.Pairwise fun v v' => v.offset < v'.offset := by
  induction h with
  | past => exact .nil
  | stopped => exact List.pairwise_singleton _ _
  | moved inside step _ _ rest ih =>
    have hlt := Walk.lt_of_step (Nat.le_of_lt inside) step
    exact .cons (fun v hv => Nat.lt_of_lt_of_le hlt (rest.le_offset v hv)) ih

/-- The records of some visits, in order. -/
def recordsOf (trace : List Visit) : List Record := trace.filterMap fun v => v.outcome.record?

theorem recordsOf_cons (v : Visit) (trace : List Visit) :
    recordsOf (v :: trace) = v.outcome.record?.toList ++ recordsOf trace := by
  cases hrecord : v.outcome.record? with
  | none => simp [recordsOf, hrecord]
  | some r => simp [recordsOf, hrecord]

theorem Visits.members_perm (h : Visits src w offset trace last) :
    (members last.groups).Perm (members w.groups ++ recordsOf trace) := by
  induction h with
  | past => simp [recordsOf]
  | stopped _ _ yields =>
    rw [recordsOf_cons, recordsOf, List.filterMap_nil, List.append_nil]
    exact yields.members_perm
  | moved _ _ yields _ _ ih =>
    rw [recordsOf_cons, ← List.append_assoc]
    exact ih.trans (yields.members_perm.append_right _)

theorem Visits.warnings_eq (h : Visits src w offset trace last) :
    last.warnings = w.warnings ++ trace.flatMap fun v => v.outcome.warnings := by
  induction h with
  | past => simp
  | stopped _ _ yields => simpa using yields.warnings_eq
  | moved _ _ yields _ _ ih => rw [ih, yields.warnings_eq, List.flatMap_cons, List.append_assoc]

theorem Outcome.length_warnings (o : Outcome) :
    o.warnings.length = o.record?.toList.countP (fun r => r.error.isSome) +
      if o.isSkipped then 1 else 0 := by
  cases o with
  | cie r | fde k r => simp [warnings, record?, isSkipped, Record.length_warnings]
  | skipped | ended => simp [warnings, record?, isSkipped]

theorem length_flatMap_warnings (trace : List Visit) :
    (trace.flatMap fun v => v.outcome.warnings).length =
      (recordsOf trace).countP (fun r => r.error.isSome) +
        trace.countP fun v => v.outcome.isSkipped := by
  induction trace with
  | nil => rfl
  | cons v rest ih =>
    rw [List.flatMap_cons, List.length_append, ih, v.outcome.length_warnings, recordsOf_cons,
      List.countP_append, List.countP_cons]
    omega

theorem Visits.records_increasing (h : Visits src w offset trace last) :
    (recordsOf trace).Pairwise fun r r' => r.offset < r'.offset := by
  refine List.pairwise_filterMap.mpr (h.increasing.imp_of_mem ?_)
  intro v v' hv hv' hlt r hr r' hr'
  obtain ⟨_, hread⟩ := (h.yields v hv).readAt hr
  obtain ⟨_, hread'⟩ := (h.yields v' hv').readAt hr'
  rw [hread.offset_eq, hread'.offset_eq]
  exact hlt

end Visits

/-! ## Listings -/

section Listings

variable (index : SymbolIndex) (home : Section)

/-- What the records of a section are read from. -/
def sourceOf (index : SymbolIndex) (home : Section) : Source := ⟨index, home.data, home.addr⟩

theorem exists_visits_listing :
    ∃ trace last, Visits (sourceOf index home) {} 0 trace last ∧
      (Listing.of index home).groups = last.groups ∧
      (Listing.of index home).warnings = last.warnings := by
  have hsound : Walk.Sound (sourceOf index home) 0 {} := Walk.sound_empty
  obtain ⟨trace, htrace⟩ := exists_visits hsound
  exact ⟨trace, _, htrace, rfl, rfl⟩

/-- Sorting the records of all groups gives them in the order of the walk. -/
theorem records_eq_recordsOf {src : Source} {trace : List Visit} {last : Walk} {listing : Listing}
    (h : Visits src {} 0 trace last) (hgroups : listing.groups = last.groups) :
    listing.records = recordsOf trace := by
  have hsorted : listing.records.Pairwise fun a b => decide (a.offset ≤ b.offset) = true := by
    refine List.pairwise_mergeSort (fun a b c hab hbc => ?_) (fun a b => ?_) _
    · simp only [decide_eq_true_eq] at *
      omega
    · simp only [Bool.or_eq_true, decide_eq_true_eq]
      omega
  have hperm : listing.records.Perm (recordsOf trace) := by
    refine (List.mergeSort_perm _ _).trans ?_
    rw [hgroups]
    simpa [members] using h.members_perm
  have hdistinct : listing.records.Pairwise fun a b => a.offset ≠ b.offset :=
    (hperm.pairwise_iff Ne.symm).mpr (h.records_increasing.imp Nat.ne_of_lt)
  have hincreasing : listing.records.Pairwise fun a b => a.offset < b.offset := by
    refine (hsorted.and hdistinct).imp fun hab => ?_
    have hle := of_decide_eq_true hab.1
    have hne := hab.2
    omega
  exact hperm.eq_of_pairwise (fun a b _ _ hab hba => absurd hba (Nat.lt_asymm hab)) hincreasing
    h.records_increasing

/-- The listing is what a walk over all record starts made: every start that the walk visited is
accounted for, in the groups and in the warnings. -/
structure Listing.Accounts (src : Source) (trace : List Visit) (last : Walk) (l : Listing) :
    Prop where
  visits : Visits src {} 0 trace last
  groups_eq : l.groups = last.groups
  warnings_eq : l.warnings = last.warnings
  /-- The walk moves on from start to start. -/
  increasing : trace.Pairwise fun v v' => v.offset < v'.offset
  /-- Each start yields one thing. -/
  outcome : ∀ v ∈ trace, ∀ o, Yields src v.before v.offset o v.after ↔ o = v.outcome
  /-- Groups and frame records are numbered, and refer back to where they should. -/
  sound : ∀ (k : Nat) (g : Group), l.groups[k]? = some g → g.Sound src k
  records_eq : l.records = recordsOf trace
  /-- Records are listed once, in section order. -/
  records_perm : l.records.Perm (members l.groups)
  records_increasing : l.records.Pairwise fun r r' => r.offset < r'.offset
  /-- There is a warning for each record with an error, and for each start without a record. -/
  length_warnings : l.warnings.length = l.records.countP (fun r => r.error.isSome) +
    trace.countP fun v => v.outcome.isSkipped

/-- On all bytes the walk comes to an end. It visits starts that follow each other, and each of them
yields one thing: a common record that opens a group, a frame record that joins one, a warning in
place of a record, or the end at a zero length. The groups and their frame records are numbered in
order, and every frame record comes after the common record that it refers back to, which could be
decoded. The records are listed in section order, each of them once, and there is a warning for each
of them that has an error and for each start that has no record. -/
theorem listing_accounts_for_every_start :
    ∃ trace last, (Listing.of index home).Accounts (sourceOf index home) trace last := by
  obtain ⟨trace, last, hvisits, hgroups, hwarnings⟩ := exists_visits_listing index home
  obtain ⟨bound, hsound⟩ := hvisits.sound Walk.sound_empty
  have hrecords : (Listing.of index home).records = recordsOf trace :=
    records_eq_recordsOf hvisits hgroups
  refine ⟨trace, last, hvisits, hgroups, hwarnings, hvisits.increasing, fun v hv o => ⟨?_, ?_⟩,
    fun k g hg => hsound.groups k g (hgroups ▸ hg), hrecords, List.mergeSort_perm _ _,
    hrecords ▸ hvisits.records_increasing, ?_⟩
  · exact fun h => h.unique (hvisits.yields v hv)
  · rintro rfl
    exact hvisits.yields v hv
  · rw [hwarnings, hvisits.warnings_eq, hrecords, List.nil_append, length_flatMap_warnings]

theorem exists_tiledTo {r : Record} (hr : r ∈ members (Listing.of index home).groups) :
    ∃ stop, r.TiledTo (sourceOf index home) stop := by
  obtain ⟨trace, last, hvisits, hgroups, -⟩ := exists_visits_listing index home
  have hmem : r ∈ recordsOf trace := by
    rw [hgroups, hvisits.members_perm.mem_iff] at hr
    simpa [members] using hr
  obtain ⟨v, hv, hrecord⟩ := List.mem_filterMap.mp hmem
  obtain ⟨_, hread⟩ := (hvisits.yields v hv).readAt hrecord
  exact hread.tiled

/-- Where the field at position `k` of a record starts: after all fields before it. -/
def Record.fieldStart (r : Record) (k : Nat) : Nat := r.offset + covered (r.fields.take k)

/-- The fields of a record follow each other from its start. -/
structure Record.FieldsTile (src : Source) (r : Record) : Prop where
  /-- Each field shows the bytes at its place, under their address. -/
  shown : ∀ (k : Nat) (f : Field), r.fields[k]? = some f →
    f.address = src.addressAt (r.fieldStart k) ∧
      slice? src.data (r.fieldStart k) f.bytes.length = some f.bytes
  /-- No field goes past the end of the record or of the section. -/
  inside : ∀ (k : Nat) (f : Field), r.fields[k]? = some f →
    r.fieldStart k + f.bytes.length ≤ min (src.declaredEnd r.offset) src.data.length
  /-- There are fields for the length and the identifier at least. -/
  id_covered : src.idStart r.offset + 4 ≤ r.offset + covered r.fields
  /-- A record without an error is covered up to the end that it declares. -/
  covers : r.error = none → r.offset + covered r.fields = src.declaredEnd r.offset
  bytes_eq : r.error = none → r.fields.flatMap Field.bytes =
    (src.data.drop r.offset).take (src.declaredEnd r.offset - r.offset)

/-- The fields of every record, also of one that breaks off, follow each other from its start. Each
shows the bytes of the section at its place, under their address, and none goes past the end of the
record or of the section. Those of a record without an error show all its bytes up to the end that
it declares, each of them once. -/
theorem fields_tile_records :
    ∀ r ∈ members (Listing.of index home).groups, r.FieldsTile (sourceOf index home) := by
  intro r hr
  obtain ⟨stop, htiled⟩ := exists_tiledTo index home hr
  have hstop : stop = r.offset + covered r.fields := htiled.tiles.stop_eq
  have hend : stop ≤ min ((sourceOf index home).declaredEnd r.offset) home.data.length :=
    Nat.le_min.mpr ⟨htiled.stop_le_end, htiled.stop_le_length⟩
  refine ⟨fun k f hf => ?_, fun k f hf => ?_, hstop ▸ htiled.id_le, fun hnone => ?_,
    fun hnone => ?_⟩
  · obtain ⟨haddress, hbytes, -⟩ := htiled.tiles.getElem? hf
    exact ⟨haddress, hbytes⟩
  · obtain ⟨-, -, hle⟩ := htiled.tiles.getElem? hf
    exact Nat.le_trans hle hend
  · rw [← hstop, htiled.complete hnone]
  · rw [htiled.tiles.flatMap_bytes, htiled.complete hnone]

/-- A whole common record, and a frame record that the section cuts off in its first pointer. -/
def cutFrames : Section :=
  ⟨1, "__TEXT", "__eh_frame", 0x1000, 30, 0, 0, 0, 0, 0,
    [12, 0, 0, 0, 0, 0, 0, 0, 1, 0, 1, 0x78, 0x10, 0, 0, 0,
     20, 0, 0, 0, 20, 0, 0, 0, 0, 0x20, 0, 0, 0, 0], []⟩

def cutIndex : SymbolIndex :=
  SymbolIndex.build (Image.ofParts 0x1000007 3 1 0 .little [cutFrames] [])

theorem cut_fields_tile_records :
    (∃ r ∈ members (Listing.of cutIndex cutFrames).groups, r.error.isSome = false ∧
      r.FieldsTile (sourceOf cutIndex cutFrames)) ∧
    ∃ r ∈ members (Listing.of cutIndex cutFrames).groups, r.error.isSome = true ∧
      r.FieldsTile (sourceOf cutIndex cutFrames) := by
  have herrors : (members (Listing.of cutIndex cutFrames).groups).map (fun r => r.error.isSome) =
      [false, true] := by decide +kernel
  have hfound {error : Bool} (h : error ∈ [false, true]) :
      ∃ r ∈ members (Listing.of cutIndex cutFrames).groups, r.error.isSome = error ∧
        r.FieldsTile (sourceOf cutIndex cutFrames) := by
    obtain ⟨r, hr, herror⟩ := List.mem_map.mp (herrors ▸ h)
    exact ⟨r, hr, herror, fields_tile_records cutIndex cutFrames r hr⟩
  exact ⟨hfound (by decide), hfound (by decide)⟩

end Listings

end MachInspect.Frame
