-- SUMMARY: Later bytes of a call-frame section never change what was made of earlier records.
import MachInspect.Proofs.Frame.Agreement
import MachInspect.Proofs.Frame.Walk

/-!
# Locality of the walk

A record that ends before the next start is read from the bytes before that start only. So two
sections that agree up to an offset the walk comes to are walked alike up to there: the walk over
the other one comes to the same offset with the same groups and the same warnings. Everything that
comes later adds to these and changes none of them.
-/
namespace MachInspect.Frame

/-! ## Record starts -/

section Heads

variable {src : Source} {data : Bytes} {b offset width : Nat}

theorem Source.Agrees.numberAt_eq (h : src.Agrees b data) (hle : offset + width ≤ b) :
    (src.withData data).numberAt offset width = src.numberAt offset width :=
  congrArg src.order.value (h.bytes_eq hle).symm

theorem Source.Agrees.idStart_eq (h : src.Agrees b data) (hle : offset + 4 ≤ b) :
    (src.withData data).idStart offset = src.idStart offset := by
  rw [Source.idStart, Source.idStart, h.numberAt_eq hle]

theorem Source.Agrees.declaredLength_eq (h : src.Agrees b data) (hle : src.idStart offset ≤ b) :
    (src.withData data).declaredLength offset = src.declaredLength offset := by
  have hmark := h.numberAt_eq (Nat.le_trans (src.add_four_le_idStart offset) hle)
  unfold Source.declaredLength
  rw [hmark]
  split
  · rename_i hextended
    rw [Source.idStart, if_pos hextended] at hle
    exact h.numberAt_eq (by omega)
  · rfl

theorem Source.idStart_le_declaredEnd (src : Source) (offset : Nat) :
    src.idStart offset ≤ src.declaredEnd offset :=
  Nat.le_add_right _ _

theorem Source.Agrees.lengthShown_eq (h : src.Agrees b data) (hle : src.idStart offset ≤ b) :
    (src.withData data).lengthShown offset = src.lengthShown offset := by
  have hfour := Nat.le_trans (src.add_four_le_idStart offset) hle
  unfold Source.lengthShown
  rw [h.numberAt_eq hfour, h.declaredLength_eq hle, h.bytes_eq hfour]
  split
  · rename_i hmark
    rw [Source.idStart, if_pos hmark] at hle
    have htwelve : offset + 4 + 8 ≤ b := by omega
    rw [h.bytes_eq htwelve]
    rfl
  · rfl

theorem exec_lengthFields_withData (h : src.Agrees b data) (hle : src.idStart offset ≤ b) :
    exec (lengthFields (src.withData data)) (startCursor (src.withData data) offset) =
      (.ok (src.declaredLength offset),
        ⟨src.idStart offset, data.length, src.lengthShown offset⟩) := by
  have hid := h.idStart_eq (Nat.le_trans (src.add_four_le_idStart offset) hle)
  have hwhole : (src.withData data).idStart offset ≤ data.length :=
    hid.symm ▸ Nat.le_trans hle h.le_length_data
  rw [exec_lengthFields_shown hwhole, h.declaredLength_eq hle, hid, h.lengthShown_eq hle]
  rfl

/-- A record that ends by `b` has the same head. -/
theorem head_withData (h : src.Agrees b data) (hend : src.declaredEnd offset ≤ b) :
    head (src.withData data) offset = head src offset := by
  have hle := Nat.le_trans (src.idStart_le_declaredEnd offset) hend
  have hexec : (lengthFields src).run.run ⟨offset, src.data.length, []⟩ = _ :=
    exec_lengthFields_shown (Nat.le_trans hle h.le_length)
  have hexec' : (lengthFields (src.withData data)).run.run
      ⟨offset, (src.withData data).data.length, []⟩ = _ := exec_lengthFields_withData h hle
  have hlimit : min (src.declaredEnd offset) src.data.length = src.declaredEnd offset :=
    Nat.min_eq_left (Nat.le_trans hend h.le_length)
  have hlimit' : min (src.declaredEnd offset) (src.withData data).data.length =
      src.declaredEnd offset := Nat.min_eq_left (Nat.le_trans hend h.le_length_data)
  have htake : (Reader.take (src.withData data) .cieId 4).run.run
      ⟨src.idStart offset, src.declaredEnd offset, src.lengthShown offset⟩ = _ :=
    (exec_take_withData h hend .cieId 4).symm
  have hdeclared : src.idStart offset + src.declaredLength offset = src.declaredEnd offset := rfl
  unfold head
  simp only [hexec, hexec', hdeclared, hlimit, hlimit', htake]
  rfl

end Heads

/-! ## Steps -/

section Steps

variable {α : Type} {src : Source} {data : Bytes} {b offset : Nat} {w w' : Walk}

/-- A record that does not go past the section is checked to no effect. -/
theorem checkExtent_of_le {declared : Nat} (hle : declared ≤ src.data.length)
    (result : Except Error α) : checkExtent src declared result = result := by
  cases result with
  | error e => rfl
  | ok a => exact if_neg (Nat.not_lt.mpr hle)

theorem declared_le (h : src.Agrees b data) (hend : src.declaredEnd offset ≤ b) {c : Cursor}
    {id : UInt32} {idStart declared next : Nat}
    (hhead : HeadAt src offset (.body c id idStart declared next)) :
    declared ≤ src.data.length ∧ declared ≤ (src.withData data).data.length := by
  cases hhead with
  | body => exact ⟨Nat.le_trans hend h.le_length, Nat.le_trans hend h.le_length_data⟩

/-- A body that reads alike gives the same fields and the same result, after the identifier. -/
theorem exec_body_withData (h : src.Agrees b data) (hend : src.declaredEnd offset ≤ b)
    {body other : Reader α} (hbody : Alike src b body other) {c : Cursor} {id : UInt32}
    {idStart declared next : Nat} (hhead : HeadAt src offset (.body c id idStart declared next))
    (name text : String) :
    exec (do Reader.push (src.withData data) idStart name text; other) c =
      exec (do Reader.push src idStart name text; body) c := by
  cases hhead with
  | body nonzero id_eq tiles pos_eq limit_eq pos_le =>
    have hinside : c.Inside src := ⟨pos_le, limit_eq ▸ Nat.min_le_right _ _⟩
    have hstart : src.idStart offset ≤ c.pos := pos_eq ▸ Nat.le_add_right _ _
    have hlimit : c.limit ≤ b := limit_eq ▸ Nat.le_trans (Nat.min_le_left _ _) hend
    obtain ⟨c', hpush, htiled, hlimit', -⟩ := exec_push_tiled name text tiles hstart hinside
    have hpush' := exec_push_withData h hstart (Nat.le_trans pos_le hlimit) name text
    rw [exec_bind_ok hpush, exec_bind_ok (hpush'.symm.trans hpush)]
    exact (hbody offset c' htiled (hlimit' ▸ hlimit)).symm

theorem addCie_withData (h : src.Agrees b data) (hend : src.declaredEnd offset ≤ b) (w : Walk)
    {c : Cursor} {id : UInt32} {idStart declared next : Nat}
    (hhead : HeadAt src offset (.body c id idStart declared next)) :
    w.addCie (src.withData data) offset c idStart declared =
      w.addCie src offset c idStart declared := by
  have hread : (do
      Reader.push (src.withData data) idStart "CIE ID" "0"
      cieBody (src.withData data) : Reader Layout).run.run c =
      (do Reader.push src idStart "CIE ID" "0"; cieBody src : Reader Layout).run.run c :=
    exec_body_withData h hend (alike_cieBody h) hhead "CIE ID" "0"
  obtain ⟨hwhole, hwhole'⟩ := declared_le h hend hhead
  unfold Walk.addCie
  simp only [hread, checkExtent_of_le hwhole, checkExtent_of_le hwhole', Source.addressAt_withData]

theorem addFdeAt_withData (h : src.Agrees b data) (hend : src.declaredEnd offset ≤ b) (w : Walk)
    {c : Cursor} {id : UInt32} {idStart declared next : Nat}
    (hhead : HeadAt src offset (.body c id idStart declared next)) :
    w.addFdeAt (src.withData data) offset c id idStart declared =
      w.addFdeAt src offset c id idStart declared := by
  have hread (layout : Layout) (text : String) : (do
      Reader.push (src.withData data) idStart "CIE Pointer" text
      fdeBody (src.withData data) layout : Reader Unit).run.run c =
      (do
        Reader.push src idStart "CIE Pointer" text
        fdeBody src layout : Reader Unit).run.run c :=
    exec_body_withData h hend (alike_fdeBody h layout) hhead "CIE Pointer" text
  obtain ⟨hwhole, hwhole'⟩ := declared_le h hend hhead
  unfold Walk.addFdeAt
  simp only [hread, checkExtent_of_le hwhole, checkExtent_of_le hwhole', Source.addressAt_withData]

/-- A record that ends by `b` takes the walk to the same place. -/
theorem step_withData (h : src.Agrees b data) (hoffset : offset ≤ src.data.length)
    (hend : src.declaredEnd offset ≤ b) (w : Walk) :
    w.step (src.withData data) offset = w.step src offset := by
  have hhead := headAt_head hoffset
  unfold Walk.step
  rw [head_withData h hend]
  cases hfound : head src offset with
  | stop warning => cases warning <;> rfl
  | skip warning next => rfl
  | body c id idStart declared next =>
    rw [hfound] at hhead
    dsimp only
    rw [addCie_withData h hend w hhead, addFdeAt_withData h hend w hhead]

/-- The walk goes on where the record at `offset` ends, or a little later. -/
theorem declaredEnd_le_of_step {next : Nat} (hoffset : offset ≤ src.data.length)
    (hstep : w.step src offset = (w', some next)) : src.declaredEnd offset ≤ next := by
  have hhead := headAt_head hoffset
  have hnext : next = src.nextStart offset := by
    unfold Walk.step at hstep
    generalize head src offset = found at hhead hstep
    cases hhead with
    | unusable => simp at hstep
    | zero => simp at hstep
    | nameless => simpa using (Prod.mk.inj hstep).2.symm
    | body =>
      dsimp only at hstep
      split at hstep
      · simpa using (Prod.mk.inj hstep).2.symm
      · simpa using (Prod.mk.inj hstep).2.symm
  rw [hnext]
  exact le_aligned src.pointerSize_pos _

end Steps

/-! ## Places that the walk comes to -/

section Reaching

variable {src : Source} {data : Bytes} {b offset : Nat} {w : Walk}

/-- The walk over the section comes to `offset`, and `w` is what it has made of the starts before.
The offset may be the end of the section, or past it. -/
inductive Reaches (src : Source) : Walk → Nat → Prop where
  | start : Reaches src {} 0
  | next {w w' : Walk} {offset next : Nat} (before : Reaches src w offset)
      (inside : offset < src.data.length) (step : w.step src offset = (w', some next)) :
      Reaches src w' next

theorem Reaches.sound (h : Reaches src w offset) : w.Sound src offset := by
  induction h with
  | start => exact Walk.sound_empty
  | @next w w' offset next _ inside step ih =>
    obtain ⟨o, hstepped⟩ := stepped_step w (Nat.le_of_lt inside)
    rw [step] at hstepped
    exact (hstepped.sound ih).mono (hstepped.forward next rfl)

/-- All records so far started before. -/
theorem Reaches.lt_of_mem (h : Reaches src w offset) :
    ∀ r ∈ members w.groups, r.offset < offset := by
  induction h with
  | start => simp [members]
  | @next w w' offset next before inside step ih =>
    obtain ⟨o, hstepped⟩ := stepped_step w (Nat.le_of_lt inside)
    rw [step] at hstepped
    have hyields := hstepped.yields before.sound
    have hlt := hstepped.forward next rfl
    intro r hr
    rcases List.mem_append.mp (hyields.members_perm.mem_iff.mp hr) with hold | hnew
    · exact Nat.lt_trans (ih r hold) hlt
    · obtain ⟨_, hread⟩ := hyields.readAt (Option.mem_toList.mp hnew)
      exact hread.offset_eq ▸ hlt

/-- The whole walk is the walk from there on. -/
theorem Reaches.run_eq (h : Reaches src w offset) : Walk.run src {} 0 = w.run src offset := by
  induction h with
  | start => rfl
  | @next w w' offset next _ inside step ih =>
    have hlt := Walk.lt_of_step (Nat.le_of_lt inside) step
    rw [ih, Walk.run, if_pos inside, step]
    exact if_pos hlt

/-- On a section that agrees up to there, the walk comes to the same place. -/
theorem Reaches.withData (h : Reaches src w offset) (hagrees : src.Agrees b data)
    (hle : offset ≤ b) : Reaches (src.withData data) w offset := by
  induction h with
  | start => exact .start
  | @next w w' offset next _ inside step ih =>
    have hlt := Walk.lt_of_step (Nat.le_of_lt inside) step
    have hend := declaredEnd_le_of_step (Nat.le_of_lt inside) step
    have hinside : offset < data.length :=
      Nat.lt_of_lt_of_le hlt (Nat.le_trans hle hagrees.le_length_data)
    refine .next (ih (by omega)) hinside ?_
    -- The record ends by the next start, so both sections have all of it.
    rw [step_withData hagrees (Nat.le_of_lt inside) (Nat.le_trans hend hle), step]

end Reaching

/-! ## Records before a place -/

section Before

variable {src : Source} {b offset k : Nat} {w last : Walk} {groups : List Group} {r : Record}
  {trace : List Visit}

/-- The frame records of the group that start before `b`. -/
def Group.before (b : Nat) (g : Group) : Group :=
  { g with fdes := g.fdes.filter fun r => r.offset < b }

/-- The groups that have a record which starts before `b`, less the frame records that do not. -/
def groupsBefore (b : Nat) (groups : List Group) : List Group :=
  (groups.filter fun g => (g.cie :: g.fdes).any fun r => r.offset < b).map (Group.before b)

theorem groupsBefore_append (groups more : List Group) :
    groupsBefore b (groups ++ more) = groupsBefore b groups ++ groupsBefore b more := by
  simp [groupsBefore]

theorem groupsBefore_cons (g : Group) (groups : List Group) :
    groupsBefore b (g :: groups) = groupsBefore b [g] ++ groupsBefore b groups :=
  groupsBefore_append [g] groups

theorem groupsBefore_eq_self (h : ∀ r ∈ members groups, r.offset < b) :
    groupsBefore b groups = groups := by
  have hgroup : ∀ g ∈ groups, g.cie.offset < b ∧ ∀ r ∈ g.fdes, r.offset < b := by
    intro g hg
    refine ⟨h _ (List.mem_flatMap.mpr ⟨g, hg, List.mem_cons_self⟩), fun r hr => ?_⟩
    exact h r (List.mem_flatMap.mpr ⟨g, hg, List.mem_cons_of_mem _ hr⟩)
  have hall : (groups.filter fun g => (g.cie :: g.fdes).any fun r => r.offset < b) = groups :=
    List.filter_eq_self.mpr fun g hg => by simp [(hgroup g hg).1]
  have hsame : ∀ g ∈ groups, g.before b = id g := by
    intro g hg
    have hfdes : (g.fdes.filter fun r => r.offset < b) = g.fdes :=
      List.filter_eq_self.mpr fun r hr => decide_eq_true ((hgroup g hg).2 r hr)
    rw [Group.before, hfdes, id]
  rw [groupsBefore, hall, List.map_congr_left hsame, List.map_id]

/-- A frame record that starts at `b` or later makes no difference. -/
theorem groupsBefore_addFde (hk : k < groups.length) (hr : b ≤ r.offset) :
    groupsBefore b (addFde groups k r) = groupsBefore b groups := by
  obtain ⟨earlier, g, later, rfl, -, hmodify⟩ := List.exists_of_modify
    (fun g => { g with fdes := g.fdes ++ [r] }) hk
  have hgroup : groupsBefore b [{ g with fdes := g.fdes ++ [r] }] = groupsBefore b [g] := by
    have hlate : ¬ r.offset < b := Nat.not_lt.mpr hr
    have hbefore : Group.before b { g with fdes := g.fdes ++ [r] } = g.before b := by
      simp [Group.before, hlate]
    simp [groupsBefore, List.filter_cons, hlate, apply_ite (List.map (Group.before b)), hbefore]
  rw [addFde, hmodify, groupsBefore_append, groupsBefore_append, groupsBefore_cons,
    groupsBefore_cons g, hgroup]

/-- What a start at `b` or later yields makes no difference. -/
theorem Yields.groupsBefore_eq {w' : Walk} {o : Outcome} (h : Yields src w offset o w')
    (hle : b ≤ offset) : groupsBefore b w'.groups = groupsBefore b w.groups := by
  rw [h.groups_eq]
  cases o with
  | cie r =>
    obtain ⟨_, hread⟩ := h.readAt (r := r) rfl
    have hlate : ¬ r.offset < b := Nat.not_lt.mpr (hread.offset_eq ▸ hle)
    simp [Outcome.groups, groupsBefore, hlate]
  | fde k r =>
    obtain ⟨_, hread⟩ := h.readAt (r := r) rfl
    exact groupsBefore_addFde h.fits.2.2 (hread.offset_eq ▸ hle)
  | skipped | ended => rfl

theorem Visits.groupsBefore_eq (h : Visits src w offset trace last) (hle : b ≤ offset) :
    groupsBefore b last.groups = groupsBefore b w.groups := by
  induction h with
  | past => rfl
  | stopped _ _ yields => exact yields.groupsBefore_eq hle
  | moved inside step yields _ _ ih =>
    have hlt := Walk.lt_of_step (Nat.le_of_lt inside) step
    rw [ih (by omega), yields.groupsBefore_eq hle]

end Before

/-! ## Listings -/

section Listings

variable {index : SymbolIndex} {home other : Section} {b : Nat} {w : Walk}

theorem sourceOf_eq_withData (haddr : other.addr = home.addr) :
    sourceOf index other = (sourceOf index home).withData other.data := by
  simp [sourceOf, Source.withData, haddr]

/-- What the walk has made when it comes to `b` is what the listing has of the starts before. -/
theorem Reaches.listing (h : Reaches (sourceOf index home) w b) :
    groupsBefore b (Listing.of index home).groups = w.groups ∧
      w.warnings <+: (Listing.of index home).warnings := by
  have hrun : Walk.run (sourceOf index home) {} 0 = w.run (sourceOf index home) b := h.run_eq
  obtain ⟨trace, htrace⟩ := exists_visits h.sound
  constructor
  · have hkept := htrace.groupsBefore_eq (Nat.le_refl b)
    rw [← hrun, groupsBefore_eq_self h.lt_of_mem] at hkept
    exact hkept
  · have hwarnings := htrace.warnings_eq
    rw [← hrun] at hwarnings
    exact ⟨_, hwarnings.symm⟩

/-- Take two sections at one address that agree up to an offset to which the walk over the first one
comes. The walk over the other one comes there too, and the listings have the same groups, records
and warnings of all the starts before. -/
theorem later_bytes_keep_earlier_records (haddr : other.addr = home.addr)
    (hbytes : home.data.take b = other.data.take b) (hle : b ≤ home.data.length)
    (hle' : b ≤ other.data.length) (hreaches : Reaches (sourceOf index home) w b) :
    Reaches (sourceOf index other) w b ∧
    groupsBefore b (Listing.of index home).groups = w.groups ∧
    groupsBefore b (Listing.of index other).groups = w.groups ∧
    w.warnings <+: (Listing.of index home).warnings ∧
    w.warnings <+: (Listing.of index other).warnings := by
  have hagrees : (sourceOf index home).Agrees b other.data := ⟨hbytes, hle, hle'⟩
  have hother : Reaches (sourceOf index other) w b := by
    rw [sourceOf_eq_withData haddr]
    exact hreaches.withData hagrees (Nat.le_refl b)
  obtain ⟨hgroups, hwarnings⟩ := hreaches.listing
  obtain ⟨hgroups', hwarnings'⟩ := hother.listing
  exact ⟨hother, hgroups, hgroups', hwarnings, hwarnings'⟩

/-- `cutFrames` with its frame record overwritten, by more bytes than there were. -/
def spoiledFrames : Section :=
  { cutFrames with
    size := 32
    data := cutFrames.data.take 16 ++ List.replicate 16 0xff }

theorem spoiled_bytes_keep_earlier_records :
    (Listing.of cutIndex cutFrames).warnings ≠ (Listing.of cutIndex spoiledFrames).warnings ∧
    ∃ w, w.groups.length = 1 ∧ Reaches (sourceOf cutIndex spoiledFrames) w 16 ∧
      groupsBefore 16 (Listing.of cutIndex cutFrames).groups = w.groups ∧
      groupsBefore 16 (Listing.of cutIndex spoiledFrames).groups = w.groups := by
  have hnext : (Walk.step (sourceOf cutIndex cutFrames) {} 0).2 = some 16 := by decide +kernel
  have hreaches : Reaches (sourceOf cutIndex cutFrames) _ 16 :=
    .next .start (by decide) (Prod.ext rfl hnext)
  have haddr : spoiledFrames.addr = cutFrames.addr := rfl
  have hbytes : cutFrames.data.take 16 = spoiledFrames.data.take 16 := by decide
  obtain ⟨hother, hgroups, hgroups', -⟩ :=
    later_bytes_keep_earlier_records haddr hbytes (by decide) (by decide) hreaches
  exact ⟨by decide +kernel, _, by decide +kernel, hother, hgroups, hgroups'⟩

end Listings

end MachInspect.Frame
