-- SUMMARY: The listing of a stored call-frame section is the one it was written from.
import MachInspect.Proofs.Frame.Records

/-!
# Round trip of call-frame sections

The walk over a well-formed section meets each record where the one before it ends. Its invariant is
`walkOf`: after the first records of the section, the groups are those of these records.
-/
namespace MachInspect.Frame

open Text

/-! ## Placed records -/

section Placed

variable {index : SymbolIndex}

theorem placed_append (start : Nat) (entries more : List (Entry index)) :
    placed start (entries ++ more)
      = placed start entries ++ placed (start + (serialize entries).length) more := by
  induction entries generalizing start with
  | nil => rfl
  | cons e entries ih =>
    rw [List.cons_append, placed, ih, placed, List.cons_append, serialize_cons, List.length_append,
      Nat.add_assoc]

/-- A placed record stands after the bytes of the records before it. -/
theorem exists_split_of_mem_placed {start offset : Nat} {entries : List (Entry index)}
    {e : Entry index} (h : (offset, e) ∈ placed start entries) :
    ∃ earlier later, entries = earlier ++ e :: later ∧
      offset = start + (serialize earlier).length := by
  induction entries generalizing start with
  | nil => cases h
  | cons first entries ih =>
    rcases List.mem_cons.mp h with heq | hlater
    · cases heq
      exact ⟨[], entries, rfl, rfl⟩
    · obtain ⟨earlier, later, rfl, hoffset⟩ := ih hlater
      refine ⟨first :: earlier, later, rfl, ?_⟩
      rw [hoffset, serialize_cons, List.length_append, Nat.add_assoc]

theorem lt_of_mem_placed {start offset : Nat} {entries : List (Entry index)} {e : Entry index}
    (h : (offset, e) ∈ placed start entries) : offset < start + (serialize entries).length := by
  obtain ⟨earlier, later, rfl, rfl⟩ := exists_split_of_mem_placed h
  have hpos := length_bytes_pos e
  rw [serialize_append, serialize_cons, List.length_append, List.length_append]
  omega

theorem le_of_mem_placed {start offset : Nat} {entries : List (Entry index)} {e : Entry index}
    (h : (offset, e) ∈ placed start entries) : start ≤ offset := by
  obtain ⟨earlier, later, _, rfl⟩ := exists_split_of_mem_placed h
  exact Nat.le_add_right _ _

theorem pairwise_placed (start : Nat) (entries : List (Entry index)) :
    (placed start entries).Pairwise (·.1 < ·.1) := by
  induction entries generalizing start with
  | nil => exact List.Pairwise.nil
  | cons e entries ih =>
    refine List.Pairwise.cons (fun later hlater => ?_) (ih _)
    have hpos := length_bytes_pos e
    have hle := le_of_mem_placed hlater
    dsimp only
    omega

theorem mem_placedCies_of_mem {entries : List (Nat × Entry index)} {offset : Nat}
    {c : StoredCie index} (h : (offset, .cie c) ∈ entries) : (offset, c) ∈ placedCies entries :=
  List.mem_filterMap.mpr ⟨_, h, rfl⟩

/-- Common records stand at different offsets, in order. -/
theorem pairwise_placedCies {entries : List (Nat × Entry index)}
    (h : entries.Pairwise (·.1 < ·.1)) : (placedCies entries).Pairwise (·.1 < ·.1) := by
  refine List.pairwise_filterMap.mpr (h.imp ?_)
  rintro ⟨offset, e⟩ ⟨offset', e'⟩ hlt
  cases e with
  | fde f => exact fun _ h => nomatch h
  | cie c =>
    cases e' with
    | fde f' => exact fun _ _ _ h => nomatch h
    | cie c' =>
      rintro _ ⟨⟩ _ ⟨⟩
      exact hlt

@[simp] theorem placedCies_append (entries more : List (Nat × Entry index)) :
    placedCies (entries ++ more) = placedCies entries ++ placedCies more :=
  List.filterMap_append

@[simp] theorem placedFdes_append (entries more : List (Nat × Entry index)) (target : Nat) :
    placedFdes (entries ++ more) target = placedFdes entries target ++ placedFdes more target :=
  List.filterMap_append

end Placed

/-! ## Groups -/

section Groups

variable {index : SymbolIndex} {base : UInt64} {entries : List (Nat × Entry index)}
  {offset target number : Nat}

theorem length_groupsOf : (groupsOf base entries).length = (placedCies entries).length := by
  rw [groupsOf, List.length_map, List.length_zipIdx]

theorem getElem?_groupsOf : (groupsOf base entries)[number]?
    = (placedCies entries)[number]?.map fun (offset, c) =>
      { number
        cie := (Entry.cie c).record .cie base number offset
        fdes := (placedFdes entries offset).zipIdx.map fun ((offset, f), number) =>
          (Entry.fde f).record .fde base number offset } := by
  rw [groupsOf, List.getElem?_map, List.getElem?_zipIdx, Option.map_map, Nat.zero_add]
  rfl

/-- A common record that nothing refers to yet opens a group. -/
theorem groupsOf_cie {c : StoredCie index} (hnone : placedFdes entries offset = []) :
    groupsOf base (entries ++ [(offset, .cie c)])
      = groupsOf base entries ++ [⟨(groupsOf base entries).length,
          (Entry.cie c).record .cie base (groupsOf base entries).length offset, []⟩] := by
  have hcies : placedCies [(offset, Entry.cie c)] = [(offset, c)] := rfl
  have hfdes (target : Nat) : placedFdes [(offset, Entry.cie c)] target = [] := rfl
  rw [length_groupsOf]
  simp only [groupsOf, placedCies_append, placedFdes_append, hcies, hfdes, List.append_nil,
    List.zipIdx_append, List.map_append, Nat.zero_add, List.zipIdx_singleton, List.map_singleton,
    hnone, List.zipIdx_nil, List.map_nil]

/-- Two common records at one offset are the same. -/
theorem eq_of_getElem?_placedCies (hsorted : (placedCies entries).Pairwise (·.1 < ·.1))
    {i j : Nat} {c c' : StoredCie index} (hi : (placedCies entries)[i]? = some (target, c))
    (hj : (placedCies entries)[j]? = some (target, c')) : i = j := by
  obtain ⟨hilt, hi⟩ := List.getElem?_eq_some_iff.mp hi
  obtain ⟨hjlt, hj⟩ := List.getElem?_eq_some_iff.mp hj
  rcases Nat.lt_trichotomy i j with hlt | heq | hgt
  · have hne := List.pairwise_iff_getElem.mp hsorted i j hilt hjlt hlt
    rw [hi, hj] at hne
    exact absurd hne (Nat.lt_irrefl _)
  · exact heq
  · have hne := List.pairwise_iff_getElem.mp hsorted j i hjlt hilt hgt
    rw [hi, hj] at hne
    exact absurd hne (Nat.lt_irrefl _)

/-- A frame record joins the group of the common record it refers to, and no other. -/
theorem groupsOf_fde {f : StoredFde index} {c : StoredCie index}
    (hsorted : (placedCies entries).Pairwise (·.1 < ·.1))
    (hnumber : (placedCies entries)[number]? = some (target, c))
    (htarget : target + f.back.toNat = (Entry.fde f).idOffset offset) :
    groupsOf base (entries ++ [(offset, .fde f)])
      = addFde (groupsOf base entries) number
          ((Entry.fde f).record .fde base (placedFdes entries target).length offset) := by
  have hcies : placedCies [(offset, Entry.fde f)] = [] := rfl
  refine List.ext_getElem? fun i => ?_
  rw [addFde, List.getElem?_modify, getElem?_groupsOf, getElem?_groupsOf, placedCies_append, hcies,
    List.append_nil]
  cases hi : (placedCies entries)[i]? with
  | none => rfl
  | some entry =>
    obtain ⟨target', c'⟩ := entry
    by_cases heq : number = i
    · subst heq
      cases hnumber.symm.trans hi
      have hfdes : placedFdes [(offset, Entry.fde f)] target = [(offset, f)] := by
        simp [placedFdes, htarget]
      simp [placedFdes_append, hfdes, List.zipIdx_append]
    · -- The identifier leads back to one offset only, and no two common records share it.
      have hne : target' + f.back.toNat ≠ (Entry.fde f).idOffset offset := by
        intro htarget'
        have hsame : target' = target := by omega
        subst hsame
        exact heq (eq_of_getElem?_placedCies hsorted hnumber hi)
      have hfdes : placedFdes [(offset, Entry.fde f)] target' = [] := by
        simp [placedFdes, hne]
      simp [placedFdes_append, hfdes, heq]

end Groups

/-! ## The walk -/

section Walks

variable {index : SymbolIndex} {base : UInt64} {entries : List (Nat × Entry index)}
  {offset target number : Nat}

/-- The common records that frame records can refer to. -/
def knownOf (entries : List (Nat × Entry index)) : List Known :=
  (placedCies entries).zipIdx.map fun ((offset, c), number) => ⟨offset, number, some c.layout⟩

/-- The walk after some records. -/
def walkOf (base : UInt64) (entries : List (Nat × Entry index)) : Walk where
  groups := groupsOf base entries
  known := knownOf entries

theorem getElem?_knownOf : (knownOf entries)[number]?
    = (placedCies entries)[number]?.map fun (offset, c) => ⟨offset, number, some c.layout⟩ := by
  rw [knownOf, List.getElem?_map, List.getElem?_zipIdx, Option.map_map, Nat.zero_add]
  rfl

theorem knownOf_cie (c : StoredCie index) : knownOf (entries ++ [(offset, .cie c)])
    = knownOf entries ++ [⟨offset, (groupsOf base entries).length, some c.layout⟩] := by
  have hcies : placedCies [(offset, Entry.cie c)] = [(offset, c)] := rfl
  simp only [knownOf, length_groupsOf, placedCies_append, hcies, List.zipIdx_append,
    List.map_append, Nat.zero_add, List.zipIdx_singleton, List.map_singleton]

theorem knownOf_fde (f : StoredFde index) :
    knownOf (entries ++ [(offset, .fde f)]) = knownOf entries := by
  have hcies : placedCies [(offset, Entry.fde f)] = [] := rfl
  simp only [knownOf, placedCies_append, hcies, List.append_nil]

/-- A frame record finds the common record that it was written for. -/
theorem referred?_walkOf {f : StoredFde index} {c : StoredCie index}
    (hsorted : (placedCies entries).Pairwise (·.1 < ·.1))
    (hnumber : (placedCies entries)[number]? = some (target, c))
    (htarget : target + f.back.toNat = (Entry.fde f).idOffset offset) :
    (walkOf base entries).referred? ((Entry.fde f).idOffset offset) f.back
      = some ⟨target, number, some c.layout⟩ := by
  rw [Walk.referred?, if_pos (by omega), ← htarget, Nat.add_sub_cancel]
  have hknown : (knownOf entries)[number]? = some ⟨target, number, some c.layout⟩ := by
    rw [getElem?_knownOf, hnumber]
    rfl
  obtain ⟨hlt, hget⟩ := List.getElem?_eq_some_iff.mp hknown
  refine List.find?_eq_some_iff_getElem.mpr ⟨beq_self_eq_true _, number, hlt, hget, ?_⟩
  intro j hj
  have hother := List.getElem?_eq_getElem (Nat.lt_trans hj hlt)
  rw [getElem?_knownOf] at hother
  obtain ⟨⟨target', c'⟩, hcie, hother⟩ := Option.map_eq_some_iff.mp hother
  have hne : target' ≠ target := by
    rintro rfl
    exact Nat.ne_of_lt hj (eq_of_getElem?_placedCies hsorted hcie hnumber)
  change (!(knownOf entries)[j].offset == target) = true
  rw [← hother]
  simpa using hne

/-- No record refers to where the next one will stand. -/
theorem placedFdes_end {earlier later : List (Entry index)} (h : WellFormed (earlier ++ later)) :
    placedFdes (placed 0 earlier) (serialize earlier).length = [] := by
  refine List.filterMap_eq_nil_iff.mpr ?_
  rintro ⟨offset, e⟩ hmem
  cases e with
  | cie c => rfl
  | fde f =>
    have hoffset := lt_of_mem_placed hmem
    obtain ⟨before, after, rfl, hbefore⟩ := exists_split_of_mem_placed hmem
    obtain ⟨target, hcie, htarget⟩ := h.refers before f (after ++ later) (by simp)
    have htarget_lt := lt_of_mem_placed hcie
    rw [Nat.zero_add] at hbefore hoffset htarget_lt
    rw [← hbefore] at htarget htarget_lt
    refine if_neg fun heq => ?_
    omega

/-- Each record leads the walk from the records before it to the records up to it. -/
theorem step_walkOf {src : Source} {earlier later : List (Entry src.index)} {e : Entry src.index}
    (h : WellFormed (earlier ++ e :: later)) (hstands : StandsAt src (serialize earlier).length e) :
    (walkOf src.base (placed 0 earlier)).step src (serialize earlier).length
      = (walkOf src.base (placed 0 (earlier ++ [e])),
          some ((serialize earlier).length + e.bytes.length)) := by
  have hplaced : placed 0 (earlier ++ [e])
      = placed 0 earlier ++ [((serialize earlier).length, e)] := by
    rw [placed_append, Nat.zero_add]
    rfl
  rw [Walk.step, hstands.head_eq, hplaced]
  dsimp only
  cases e with
  | cie c =>
    have hid : (Entry.cie c).id = 0 := rfl
    rw [if_pos hid, hstands.addCie_eq, walkOf, walkOf, groupsOf_cie (placedFdes_end h),
      knownOf_cie]
  | fde f =>
    obtain ⟨target, hcie, htarget⟩ := h.refers earlier f later rfl
    obtain ⟨number, hnumber⟩ := List.getElem?_of_mem (mem_placedCies_of_mem hcie)
    have hsorted := pairwise_placedCies (pairwise_placed 0 earlier)
    have hid : (Entry.fde f).id ≠ 0 := by
      intro hzero
      have hback : f.back.toNat = 0 := congrArg UInt32.toNat hzero
      have hlt := lt_of_mem_placed hcie
      rw [Entry.idOffset] at htarget
      omega
    have hreferred : (walkOf src.base (placed 0 earlier)).referred? _ f.back = some _ :=
      referred?_walkOf hsorted hnumber htarget
    have hgroup : (groupsOf src.base (placed 0 earlier))[number]? = some _ :=
      getElem?_groupsOf.trans (congrArg _ hnumber)
    rw [if_neg hid]
    have hadd := hstands.addFdeAt_eq hreferred hgroup
    rw [List.length_map, List.length_zipIdx] at hadd
    rw [Entry.id, hadd, walkOf, walkOf, groupsOf_fde hsorted hnumber htarget, knownOf_fde]

/-- A zero length ends the walk. -/
theorem step_terminator {src : Source} {offset : Nat} {rest : Bytes} (w : Walk)
    (hoffset : offset ≤ src.data.length) (h : src.data.drop offset = [0, 0, 0, 0] ++ rest) :
    w.step src offset = (w, none) := by
  have hzero : src.order.encode 4 0 = [0, 0, 0, 0] := by cases src.order <;> rfl
  have hrest : Rest src ⟨offset, src.data.length, []⟩
      (Piece.stored [.plain "Length" (src.order.encode 4 0) (decimal 0)] ++ rest) := by
    refine ⟨hoffset, Nat.le_refl _, ?_⟩
    rw [List.take_length, h, Piece.stored_singleton, Piece.plain, hzero]
  have hlength : (lengthFields src).run.run ⟨offset, src.data.length, []⟩ = (.ok 0, _) :=
    reads_shortLength (by decide) _ hrest
  rw [Walk.step, head]
  dsimp only
  rw [hlength]
  rfl

theorem dvd_length_serialize {size : Nat} {entries : List (Entry index)}
    (h : ∀ e ∈ entries, size ∣ e.bytes.length) : size ∣ (serialize entries).length := by
  induction entries with
  | nil => exact Nat.dvd_zero _
  | cons e entries ih =>
    rw [serialize_cons, List.length_append]
    exact Nat.dvd_add (h e List.mem_cons_self) (ih fun e' he' => h e' (List.mem_cons_of_mem _ he'))

/-- From the end of the first records on, the walk adds all the later ones. -/
theorem run_walkOf {src : Source} {earlier later : List (Entry src.index)} {tail : Bytes}
    (h : WellFormed (earlier ++ later)) (hdata : src.data = serialize (earlier ++ later) ++ tail)
    (htail : tail = [] ∨ ∃ rest, tail = [0, 0, 0, 0] ++ rest) (hsize : src.data.length < 2 ^ 64) :
    (walkOf src.base (placed 0 earlier)).run src (serialize earlier).length
      = walkOf src.base (placed 0 (earlier ++ later)) := by
  -- The records ahead become fewer while those already met grow, so `earlier` is arbitrary.
  induction later generalizing earlier with
  | nil =>
    rw [List.append_nil] at hdata ⊢
    rw [Walk.run.eq_def]
    rcases htail with rfl | ⟨rest, rfl⟩
    · rw [if_neg (by rw [hdata, List.append_nil]; exact Nat.lt_irrefl _)]
    · have hdrop : src.data.drop (serialize earlier).length = [0, 0, 0, 0] ++ rest := by
        rw [hdata, List.drop_left]
      have hlength := congrArg List.length hdata
      rw [List.length_append] at hlength
      rw [step_terminator _ (by omega) hdrop]
      exact ite_self _
  | cons e later ih =>
    have hdrop : src.data.drop (serialize earlier).length
        = e.bytes ++ (serialize later ++ tail) := by
      rw [hdata, serialize_append, List.append_assoc, List.drop_left, serialize_cons,
        List.append_assoc]
    have hlt : (serialize earlier).length < src.data.length := by
      have hpos := length_bytes_pos e
      rw [hdata, serialize_append, serialize_cons]
      simp only [List.length_append]
      omega
    have hstands : StandsAt src (serialize earlier).length e := by
      refine ⟨Nat.le_of_lt hlt, ⟨_, hdrop⟩, hsize, h.fits e (by simp), ?_⟩
      refine Nat.dvd_add (dvd_length_serialize fun e' he' => ?_) ?_
      · exact h.aligned e' (List.mem_append_left _ he')
      · exact h.aligned e (by simp)
    have hnext : (serialize earlier).length + e.bytes.length
        = (serialize (earlier ++ [e])).length := by
      simp [serialize]
    have hassoc : earlier ++ e :: later = earlier ++ [e] ++ later := by simp
    rw [Walk.run.eq_def, if_pos hlt, step_walkOf h hstands]
    dsimp only
    rw [if_pos (Nat.lt_add_of_pos_right (length_bytes_pos e)), hnext]
    rw [hassoc] at h hdata ⊢
    exact ih h hdata

end Walks

/-! ## Sections -/

/-- A section that holds well-formed records, up to its end or up to a zero length, is listed as it
was written: one group for each common record, in order, with exactly the frame records that refer
to it, every field with its value, and no warning. -/
theorem listing_of_serialize {index : SymbolIndex} {home : Section} {entries : List (Entry index)}
    {tail : Bytes} (hentries : WellFormed entries) (hdata : home.data = serialize entries ++ tail)
    (htail : tail = [] ∨ ∃ rest, tail = [0, 0, 0, 0] ++ rest)
    (hsize : home.data.length < 2 ^ 64) :
    Listing.of index home = ⟨home.label, groupsOf home.addr (placed 0 entries), []⟩ := by
  have hwalk : Walk.run ⟨index, home.data, home.addr⟩ {} 0
      = walkOf home.addr (placed 0 entries) :=
    @run_walkOf ⟨index, home.data, home.addr⟩ [] entries tail hentries hdata htail hsize
  rw [Listing.of, hwalk]
  rfl

/-- An image with one function at `0x1000`. -/
def smallIndex : SymbolIndex :=
  .build (.ofParts 0x1000007 3 1 0 .little
    [⟨1, "__TEXT", "__text", 0x1000, 4, 0, 0, 0, 0, 0x80000000, [0x90, 0x90, 0x90, 0xc3], []⟩]
    [⟨"_main", 0xf, 1, 0, 0x1000⟩])

def smallCie : StoredCie smallIndex where
  extended := false
  revision := .one 16
  augmentation? := some
    { letters := [.frame 0x1b]
      length := ⟨1, 0, by decide, by decide⟩
      length_exact := rfl }
  codeFactor := ⟨1, 0, by decide, by decide⟩
  dataFactor := ⟨-8, 0, by decide, by decide, by decide⟩
  instructions := [0x0c, 7, 8, 0x90, 1, 0, 0]

/-- The function starts `0x1020` bytes before the field that says so. -/
def smallStart : Encoding.Format.Number (.word 4 true) := .signed (-0x1020) (by decide) (by decide)

def smallRange : Encoding.Format.Number (.word 4 true) := .signed 4 (by decide) (by decide)

def smallFde : StoredFde smallIndex where
  extended := false
  cie := smallCie
  back := 28
  start := .stored (by decide) smallStart
  range := .stored (by decide) smallRange
  lsda := .leftOut rfl
  length := ⟨0, 0, by decide, by decide⟩
  length_exact := rfl
  instructions := [0, 0, 0, 0, 0, 0, 0]

def smallSection : Section where
  index := 2
  segmentName := "__TEXT"
  name := "__eh_frame"
  addr := 0x2000
  size := 52
  offset := 0
  align := 3
  relocOffset := 0
  relocCount := 0
  flags := 0
  data :=
    [0x14, 0, 0, 0, 0, 0, 0, 0, 1, 0x7a, 0x52, 0, 1, 0x78, 0x10, 1, 0x1b, 0x0c, 7, 8, 0x90, 1, 0, 0,
     0x14, 0, 0, 0, 0x1c, 0, 0, 0, 0xe0, 0xef, 0xff, 0xff, 4, 0, 0, 0, 0, 0, 0, 0, 0, 0, 0, 0,
     0, 0, 0, 0]
  relocs := []

theorem small_wellFormed : WellFormed [.cie smallCie, .fde smallFde] where
  fits := by
    intro e he _
    obtain rfl | rfl : e = .cie smallCie ∨ e = .fde smallFde := by simpa using he
    · exact (by decide : 20 < extendedMark)
    · exact (by decide : 20 < extendedMark)
  aligned := by
    intro e he
    obtain rfl | rfl : e = .cie smallCie ∨ e = .fde smallFde := by simpa using he
    · exact (by decide : 8 ∣ 24)
    · exact (by decide : 8 ∣ 24)
  refers := by
    intro earlier f later h
    match earlier, h with
    | [], h => cases h
    | [_], h =>
      cases h
      exact ⟨0, List.mem_singleton.mpr rfl, rfl⟩
    | _ :: _ :: _, h => simp at h

theorem small_listing_of_serialize :
    smallSection.data = serialize [.cie smallCie, .fde smallFde] ++ [0, 0, 0, 0] ∧
      Listing.of smallIndex smallSection
        = ⟨"__TEXT,__eh_frame", groupsOf 0x2000 (placed 0 [.cie smallCie, .fde smallFde]), []⟩ :=
  ⟨rfl, listing_of_serialize small_wellFormed rfl (.inr ⟨[], rfl⟩) (by decide)⟩

end MachInspect.Frame
