-- SUMMARY: Look-up answers by extents, except inside a group at address zero.
import MachInspect.Proofs.Symbols.Groups

/-!
# Look-up by address

In an image whose sections do not overlap and whose symbols lie in their sections, the extents of
the groups do not overlap either, so an address has at most one group and `candidate?` finds it.
`covering?` passes over a group at address zero; this is the only place where look-up and extents
disagree.
-/
namespace MachInspect

/-! ## Images whose symbols are in their places -/

/-- No two sections share an address, and every symbol that stands for an address in a section
stands for one of the section it declares. -/
structure Image.WellPlaced (image : Image) : Prop where
  apart : image.sections.Pairwise fun s t => ∀ a, ¬ (s.contains a = true ∧ t.contains a = true)
  atHome : ∀ s ∈ image.symbols, s.isSectionDefined = true →
    ∃ home, image.home? s = some home ∧ home.Spans s.value

namespace Image

theorem sectionAt?_eq_some {image : Image} {number : UInt32} {home : Section}
    (h : image.sectionAt? number = some home) :
    number ≠ 0 ∧ image.sections[number.toNat - 1]? = some home := by
  unfold sectionAt? at h
  split at h
  · simp at h
  · exact ⟨‹_›, h⟩

theorem mem_symbols_of_mem_addressed {image : Image} {p : Nat × Symbol}
    (hp : p ∈ image.addressedSymbols) : p.2 ∈ image.symbols ∧ p.2.isSectionDefined = true := by
  obtain ⟨hget, hdef⟩ := mem_addressedSymbols.mp hp
  exact ⟨List.mem_of_getElem? hget, hdef⟩

/-- Where no two sections share an address, symbols whose sections do have the same section. -/
theorem sect_eq_of_contains {image : Image}
    (hapart : image.sections.Pairwise fun s t => ∀ a, ¬ (s.contains a = true ∧ t.contains a = true))
    {s t : Symbol} {home home' : Section} (hhome : image.home? s = some home)
    (hhome' : image.home? t = some home') {a : UInt64} (ha : home.contains a = true)
    (ha' : home'.contains a = true) : s.sect = t.sect := by
  obtain ⟨hnonzero, hget⟩ := sectionAt?_eq_some hhome
  obtain ⟨hnonzero', hget'⟩ := sectionAt?_eq_some hhome'
  obtain ⟨hi, rfl⟩ := List.getElem?_eq_some_iff.mp hget
  obtain ⟨hj, rfl⟩ := List.getElem?_eq_some_iff.mp hget'
  have heq : s.sect.toUInt32.toNat - 1 = t.sect.toUInt32.toNat - 1 := by
    rcases Nat.lt_trichotomy (s.sect.toUInt32.toNat - 1) (t.sect.toUInt32.toNat - 1)
      with hij | heq | hji
    · exact absurd ⟨ha, ha'⟩ (List.pairwise_iff_getElem.mp hapart _ _ hi hj hij a)
    · exact heq
    · exact absurd ⟨ha', ha⟩ (List.pairwise_iff_getElem.mp hapart _ _ hj hi hji a)
  have h0 : s.sect.toUInt32.toNat ≠ 0 :=
    fun h => hnonzero (UInt32.toNat_inj.mp (by simpa using h))
  have h0' : t.sect.toUInt32.toNat ≠ 0 :=
    fun h => hnonzero' (UInt32.toNat_inj.mp (by simpa using h))
  simp only [UInt8.toNat_toUInt32] at heq h0 h0'
  exact UInt8.toNat_inj.mp (by omega)

/-- A symbol that follows one of another section lies past the end of that one's section. -/
theorem WellPlaced.limit_le {image : Image} (hplaced : image.WellPlaced) {s t : Symbol}
    {home : Section} (ht : t ∈ image.symbols) (htdef : t.isSectionDefined = true)
    (hhome : image.home? s = some home) (hspans : home.Spans s.value)
    (hlt : s.value < t.value) (hsect : t.sect ≠ s.sect) : home.limit ≤ t.value := by
  obtain ⟨home', hhome', hspans'⟩ := hplaced.atHome t ht htdef
  -- Before the limit, the later symbol would be in both sections.
  rw [← UInt64.not_lt]
  intro hbefore
  have hbefore' := UInt64.lt_iff_toNat_lt.mp hbefore
  have hlt' := UInt64.lt_iff_toNat_lt.mp hlt
  have hlimit := home.limit.toNat_lt
  have hinside : home.contains t.value = true := by
    refine Section.contains_iff.mpr ⟨?_, hbefore'⟩
    have := hspans.1
    omega
  have hinside' : home'.contains t.value = true := by
    refine Section.contains_iff.mpr ⟨hspans'.1, ?_⟩
    have := hspans'.2
    simp only [Section.limit, toNat_saturatingAdd] at hbefore' ⊢
    omega
  exact hsect (sect_eq_of_contains hplaced.apart hhome' hhome hinside' hinside)

/-- The extent of a symbol ends before the symbols after its aliases. -/
theorem WellPlaced.extent_le {image : Image} (hplaced : image.WellPlaced) {index : Nat}
    {s : Symbol} {rest : List (Nat × Symbol)} (hsorted : Ascending ((index, s) :: rest))
    (hsymbols : ∀ p ∈ (index, s) :: rest, p.2 ∈ image.symbols ∧ p.2.isSectionDefined = true)
    {q : Nat × Symbol} (hq : q ∈ rest.dropWhile fun p => p.2.value == s.value) :
    s.value.toNat
      + (image.extent s (rest.dropWhile fun p => p.2.value == s.value).head?).toNat
        ≤ q.2.value.toNat := by
  have hlater := ascending_later hsorted fun p => p.2.value == s.value
  cases hrest : rest.dropWhile (fun p => p.2.value == s.value) with
  | nil => simp [hrest] at hq
  | cons next later =>
    rw [hrest] at hq hlater
    have hnext : next ∈ rest.dropWhile fun p => p.2.value == s.value :=
      hrest ▸ List.mem_cons_self
    have hlt : s.value < next.2.value := lt_of_mem_later hsorted hnext
    have hle : next.2.value.toNat ≤ q.2.value.toNat := by
      rcases List.mem_cons.mp hq with rfl | hq
      · exact Nat.le_refl _
      · exact UInt64.le_iff_toNat_le.mp ((List.pairwise_cons.mp hlater).1 q hq)
    have hlt' := UInt64.lt_iff_toNat_lt.mp hlt
    simp only [List.head?_cons, extent]
    by_cases hsect : next.2.sect = s.sect
    · simp only [hsect, if_true, UInt64.toNat_sub_of_le _ _ (UInt64.le_of_lt hlt)]
      omega
    · obtain ⟨hs, hsdef⟩ := hsymbols (index, s) List.mem_cons_self
      obtain ⟨hn, hndef⟩ :=
        hsymbols next (List.mem_cons_of_mem _ ((List.dropWhile_suffix _).mem hnext))
      obtain ⟨home, hhome, hspans⟩ := hplaced.atHome s hs hsdef
      have hlimit := hplaced.limit_le hn hndef hhome hspans hlt hsect
      have hlimit' := UInt64.le_iff_toNat_le.mp hlimit
      simp only [hsect, if_false, bytesToSectionEnd, hhome]
      by_cases hinside : s.value ≤ home.limit
      · have hinside' := UInt64.le_iff_toNat_le.mp hinside
        simp only [hinside, if_true, UInt64.toNat_sub_of_le _ _ hinside]
        omega
      · simp only [hinside, if_false, UInt64.toNat_zero]
        omega

theorem WellPlaced.bytesToSectionEnd_pos {image : Image} (hplaced : image.WellPlaced)
    {s : Symbol} (hs : s ∈ image.symbols) (hdef : s.isSectionDefined = true)
    (hlast : s.value.toNat < 2 ^ 64 - 1) : 0 < (image.bytesToSectionEnd s).toNat := by
  obtain ⟨home, hhome, hspans⟩ := hplaced.atHome s hs hdef
  have hlt : s.value.toNat < home.limit.toNat := by
    have := hspans.2
    simp only [Section.limit, toNat_saturatingAdd]
    omega
  have hle : s.value ≤ home.limit := UInt64.le_iff_toNat_le.mpr (Nat.le_of_lt hlt)
  simp only [bytesToSectionEnd, hhome, hle, if_true, UInt64.toNat_sub_of_le _ _ hle]
  omega

/-- Only a group at the very last address has an empty extent. -/
theorem WellPlaced.size_pos {image : Image} (hplaced : image.WellPlaced) {g : SymbolGroup}
    (hg : g ∈ image.groupSorted image.addressedSymbols)
    (hlast : g.address.toNat < 2 ^ 64 - 1) : 0 < g.size.toNat := by
  obtain ⟨index, s, rest, hsuffix, rfl⟩ := exists_lead_of_mem_groupSorted hg
  have hsorted := image.ascending_addressedSymbols.sublist hsuffix.sublist
  obtain ⟨hs, hdef⟩ := mem_symbols_of_mem_addressed (hsuffix.mem List.mem_cons_self)
  have hend := hplaced.bytesToSectionEnd_pos hs hdef hlast
  simp only [leadGroup]
  cases hnext : (rest.dropWhile fun p => p.2.value == s.value).head? with
  | none => exact hend
  | some next =>
    have hlt := lt_of_mem_later hsorted (List.mem_of_mem_head? hnext)
    simp only [extent]
    by_cases hsect : next.2.sect = s.sect
    · have hlt' := UInt64.lt_iff_toNat_lt.mp hlt
      simp only [hsect, if_true, UInt64.toNat_sub_of_le _ _ (UInt64.le_of_lt hlt)]
      omega
    · simpa only [hsect, if_false] using hend

/-- Extents follow each other without overlap. -/
theorem WellPlaced.pairwise_extents {image : Image} (hplaced : image.WellPlaced)
    {symbols : List (Nat × Symbol)} (hsorted : Ascending symbols)
    (hsymbols : ∀ p ∈ symbols, p.2 ∈ image.symbols ∧ p.2.isSectionDefined = true) :
    (image.groupSorted symbols).Pairwise fun g h =>
      g.address.toNat + g.size.toNat ≤ h.address.toNat := by
  induction symbols using groupSorted.induct with
  | case1 => simp [groupSorted]
  | case2 index s rest _ ih =>
    rw [groupSorted_cons]
    refine List.pairwise_cons.mpr ⟨?_, ih (ascending_later hsorted _) ?_⟩
    · intro h hh
      obtain ⟨q, hq, hvalue⟩ := groupSorted_address hh
      exact hvalue ▸ hplaced.extent_le hsorted hsymbols hq
    · intro p hp
      exact hsymbols p (List.mem_cons_of_mem _ ((List.dropWhile_suffix _).mem hp))

theorem WellPlaced.pairwise_build {image : Image} (hplaced : image.WellPlaced) :
    (SymbolIndex.build image).groups.Pairwise fun g h =>
      g.address.toNat + g.size.toNat ≤ h.address.toNat := by
  have hextents := hplaced.pairwise_extents image.ascending_addressedSymbols
    fun _ hp => mem_symbols_of_mem_addressed hp
  rw [← SymbolIndex.map_bare_build, List.pairwise_map] at hextents
  exact hextents

end Image

/-! ## Covering groups -/

namespace SymbolIndex

theorem covering?_eq_some_iff {index : SymbolIndex} {a : UInt64} {g : SymbolGroup}
    (hsorted : index.groups.Pairwise fun g h => g.address < h.address) :
    index.covering? a = some g ↔
      (∃ k, LastStart index.groups a k g) ∧ g.address ≠ 0 ∧ g.contains a = true := by
  unfold covering?
  constructor
  · intro h
    obtain ⟨k, hk, h⟩ := Option.bind_eq_some_iff.mp h
    obtain ⟨g', hg', h⟩ := Option.bind_eq_some_iff.mp h
    obtain ⟨hcond, rfl⟩ : (g'.address ≠ 0 ∧ g'.contains a = true) ∧ g' = g := by
      simpa using h
    obtain ⟨g'', hlast⟩ := (candidate?_eq_some_iff_lastStart hsorted).mp hk
    obtain rfl : g'' = g' := Option.some.inj (hlast.found.symm.trans hg')
    exact ⟨⟨k, hlast⟩, hcond⟩
  · rintro ⟨⟨k, hlast⟩, hcond⟩
    have hk := (candidate?_eq_some_iff_lastStart hsorted).mpr ⟨g, hlast⟩
    simp [hk, hlast.found, hcond]

/-- Where extents do not overlap, the group that spans an address is the last one to start. -/
theorem exists_lastStart_of_spans {groups : List SymbolGroup} {a : UInt64} {g : SymbolGroup}
    (hextents : groups.Pairwise fun g h => g.address.toNat + g.size.toNat ≤ h.address.toNat)
    (hg : g ∈ groups) (hspans : g.Spans a) : ∃ k, LastStart groups a k g := by
  obtain ⟨k, hk, rfl⟩ := List.getElem_of_mem hg
  refine ⟨k, List.getElem?_eq_getElem hk, UInt64.le_iff_toNat_le.mpr hspans.1, ?_⟩
  intro j h hj hstarted
  obtain ⟨hj', rfl⟩ := List.getElem?_eq_some_iff.mp hj
  rcases Nat.lt_or_ge k j with hkj | hjk
  · have hle := List.pairwise_iff_getElem.mp hextents k j hk hj' hkj
    have hstarted' := UInt64.le_iff_toNat_le.mp hstarted
    have := hspans.2
    omega
  · exact hjk

/-- The group that covers an address is the one whose extent has it, unless it is at zero. -/
theorem covering?_build_eq_some_iff {image : Image} (hplaced : image.WellPlaced) {a : UInt64}
    {g : SymbolGroup} :
    (build image).covering? a = some g ↔
      g ∈ (build image).groups ∧ g.Spans a ∧ g.address ≠ 0 := by
  rw [covering?_eq_some_iff (pairwise_build image)]
  constructor
  · rintro ⟨⟨k, hlast⟩, hne, hcontains⟩
    have hg := List.mem_of_getElem? hlast.found
    exact ⟨hg, (SymbolGroup.contains_iff_spans (build_fits hg)).mp hcontains, hne⟩
  · rintro ⟨hg, hspans, hne⟩
    exact ⟨exists_lastStart_of_spans hplaced.pairwise_build hg hspans, hne,
      (SymbolGroup.contains_iff_spans (build_fits hg)).mpr hspans⟩

/-! ## Names -/

/-- What follows a name for an address past the start of its group: `+0x1f`. -/
def distanceText (address start : UInt64) : String :=
  if address = start then ""
  else "+0x" ++ String.ofList (Nat.toDigits 16 (address.toNat - start.toNat))

/-- The hit gives the start of the group and the names of all its aliases, each with the distance
of the address from the start. -/
structure Describes (index : SymbolIndex) (g : SymbolGroup) (address : UInt64) (hit : Hit) :
    Prop where
  base : hit.base = g.address
  names : ∃ names : List String,
    g.aliases.map (fun i => index.image.symbols[i]?.map Symbol.name) = names.map some ∧
      hit.names = "|".intercalate (names.map (· ++ distanceText address g.address))

theorem placedName_eq (name : String) {address start : UInt64} (hle : start ≤ address) :
    placedName name (address - start).toNat = name ++ distanceText address start := by
  have hle' := UInt64.le_iff_toNat_le.mp hle
  rw [UInt64.toNat_sub_of_le _ _ hle]
  unfold placedName distanceText
  by_cases heq : address = start
  · simp [heq]
  · have hdiff : address.toNat ≠ start.toNat := fun h => heq (UInt64.toNat_inj.mp h)
    have hsign : ("+0x" : String) = "+" ++ "0x" := rfl
    rw [if_neg (by omega), if_neg heq, Text.hex, hsign]
    simp only [String.append_assoc]

theorem map_name_aliases {symbols : List Symbol} {aliases : List Nat}
    (hall : ∀ i ∈ aliases, ∃ s, symbols[i]? = some s) :
    aliases.map (fun i => symbols[i]?.map Symbol.name) =
      ((aliases.filterMap fun i => symbols[i]?).map Symbol.name).map some := by
  induction aliases with
  | nil => rfl
  | cons i rest ih =>
    obtain ⟨s, hs⟩ := hall i List.mem_cons_self
    have hrest := ih fun j hj => hall j (List.mem_cons_of_mem _ hj)
    simp [hs, hrest]

theorem exists_symbol_of_alias {image : Image} {g : SymbolGroup}
    (hg : g ∈ (build image).groups) {i : Nat} (hi : i ∈ g.aliases) :
    ∃ s, image.symbols[i]? = some s ∧ s.isSectionDefined = true ∧ s.value = g.address := by
  obtain ⟨s, hs, hvalue⟩ := Image.groupSorted_alias (bare_mem_of_mem_build hg) hi
  obtain ⟨hget, hdef⟩ := Image.mem_addressedSymbols.mp hs
  exact ⟨s, hget, hdef, hvalue⟩

theorem lookup_eq_some_iff {index : SymbolIndex} {a : UInt64} {hit : Hit} :
    index.lookup a = some hit ↔ ∃ g, index.covering? a = some g ∧
      hit = ⟨"|".intercalate ((g.aliases.filterMap fun i => index.image.symbols[i]?).map
        fun s => placedName s.name (a - g.address).toNat), g.address⟩ := by
  unfold lookup
  cases index.covering? a with
  | none => simp
  | some g => simp [eq_comm]

/-- A hit names the group that covers the address, and leaves out none of its aliases. -/
theorem describes_of_lookup {image : Image} {a : UInt64} {g : SymbolGroup} {hit : Hit}
    (hplaced : image.WellPlaced) (hcovering : (build image).covering? a = some g)
    (hhit : (build image).lookup a = some hit) : (build image).Describes g a hit := by
  obtain ⟨g', hg', rfl⟩ := lookup_eq_some_iff.mp hhit
  obtain rfl : g = g' := Option.some.inj (hcovering.symm.trans hg')
  obtain ⟨hg, hspans, -⟩ := (covering?_build_eq_some_iff hplaced).mp hcovering
  have hle : g.address ≤ a := UInt64.le_iff_toNat_le.mpr hspans.1
  refine ⟨rfl, _, map_name_aliases fun i hi => ?_, ?_⟩
  · obtain ⟨s, hs, -⟩ := exists_symbol_of_alias hg hi
    exact ⟨s, hs⟩
  · simp only [List.map_map, Function.comp_def, placedName_eq _ hle]

/-! ## Look-up and extents -/

/-- Look-up says of an address what the extents say: there is a hit if and only if some group spans
the address, and the hit describes that group. -/
def FollowsExtents (index : SymbolIndex) (address : UInt64) : Prop :=
  ((index.lookup address).isSome = true ↔ ∃ g ∈ index.groups, g.Spans address) ∧
    ∀ g ∈ index.groups, g.Spans address →
      ∀ hit, index.lookup address = some hit → index.Describes g address hit

theorem lookup_isSome_iff {image : Image} (hplaced : image.WellPlaced) {a : UInt64} :
    ((build image).lookup a).isSome = true ↔
      ∃ g ∈ (build image).groups, g.Spans a ∧ g.address ≠ 0 := by
  rw [Option.isSome_iff_exists]
  constructor
  · rintro ⟨hit, hhit⟩
    obtain ⟨g, hg, -⟩ := lookup_eq_some_iff.mp hhit
    exact ⟨g, (covering?_build_eq_some_iff hplaced).mp hg⟩
  · rintro ⟨g, hg⟩
    exact ⟨_, lookup_eq_some_iff.mpr ⟨g, (covering?_build_eq_some_iff hplaced).mpr hg, rfl⟩⟩

/-- At most one group spans an address. -/
theorem eq_of_spans {image : Image} (hplaced : image.WellPlaced) {a : UInt64}
    {g h : SymbolGroup} (hg : g ∈ (build image).groups) (hh : h ∈ (build image).groups)
    (hgspans : g.Spans a) (hhspans : h.Spans a) : g = h := by
  obtain ⟨k, hk⟩ := exists_lastStart_of_spans hplaced.pairwise_build hg hgspans
  obtain ⟨j, hj⟩ := exists_lastStart_of_spans hplaced.pairwise_build hh hhspans
  exact (hk.unique hj).2

/-- Look-up follows the extents at every address outside a group at zero, and nowhere else. -/
theorem followsExtents_iff {image : Image} (hplaced : image.WellPlaced) (a : UInt64) :
    (build image).FollowsExtents a ↔ ∀ g ∈ (build image).groups, g.Spans a → g.address ≠ 0 := by
  constructor
  · rintro ⟨hsome, -⟩ g hg hspans hzero
    obtain ⟨g', hg', hspans', hne⟩ := (lookup_isSome_iff hplaced).mp (hsome.mpr ⟨g, hg, hspans⟩)
    exact hne (eq_of_spans hplaced hg' hg hspans' hspans ▸ hzero)
  · intro hnonzero
    refine ⟨?_, fun g hg hspans hit hhit => ?_⟩
    · rw [lookup_isSome_iff hplaced]
      constructor
      · rintro ⟨g, hg, hspans, -⟩
        exact ⟨g, hg, hspans⟩
      · rintro ⟨g, hg, hspans⟩
        exact ⟨g, hg, hspans, hnonzero g hg hspans⟩
    · have hcovering := (covering?_build_eq_some_iff hplaced).mpr ⟨hg, hspans, hnonzero g hg hspans⟩
      exact describes_of_lookup hplaced hcovering hhit

theorem exists_group_of_symbol {image : Image} {s : Symbol} (hs : s ∈ image.symbols)
    (hdef : s.isSectionDefined = true) : ∃ g ∈ (build image).groups, g.address = s.value := by
  obtain ⟨i, hi, rfl⟩ := List.getElem_of_mem hs
  have hmem : (i, image.symbols.get ⟨i, hi⟩) ∈ image.addressedSymbols :=
    Image.mem_addressedSymbols.mpr ⟨List.getElem?_eq_getElem hi, hdef⟩
  obtain ⟨g, hg, haddress⟩ := Image.exists_groupSorted_of_mem image hmem
  rw [← map_bare_build] at hg
  obtain ⟨h, hh, rfl⟩ := List.mem_map.mp hg
  exact ⟨h, hh, haddress⟩

/-- In an image whose symbols are in their places, look-up follows the extents except inside a group
at address zero, where it finds nothing. So it follows them everywhere if and only if no symbol
stands for address zero. -/
theorem lookup_follows_extents_off_zero {image : Image} (hplaced : image.WellPlaced) :
    (∀ a, (build image).FollowsExtents a ↔
      ∀ g ∈ (build image).groups, g.Spans a → g.address ≠ 0) ∧
    (∀ a, ∀ g ∈ (build image).groups, g.Spans a → g.address = 0 →
      (build image).lookup a = none) ∧
    ((∀ a, (build image).FollowsExtents a) ↔
      ∀ s ∈ image.symbols, s.isSectionDefined = true → s.value ≠ 0) := by
  refine ⟨followsExtents_iff hplaced, ?_, ?_⟩
  · intro a g hg hspans hzero
    rw [← Option.not_isSome_iff_eq_none, lookup_isSome_iff hplaced]
    rintro ⟨h, hh, hhspans, hne⟩
    exact hne (eq_of_spans hplaced hh hg hhspans hspans ▸ hzero)
  · constructor
    · intro hfollows s hs hdef hzero
      obtain ⟨g, hg, haddress⟩ := exists_group_of_symbol hs hdef
      have hstart : g.address.toNat = 0 := by simp [haddress, hzero]
      have hpos := hplaced.size_pos (bare_mem_of_mem_build hg) (by simp [SymbolGroup.bare, hstart])
      have hspans : g.Spans 0 := by
        simp only [SymbolGroup.bare] at hpos
        exact ⟨by simp [hstart], by simpa [hstart] using hpos⟩
      exact (followsExtents_iff hplaced 0).mp (hfollows 0) g hg hspans (haddress.trans hzero)
    · intro hnonzero a
      rw [followsExtents_iff hplaced]
      intro g hg _
      obtain ⟨p, hp, hvalue⟩ := Image.groupSorted_address (bare_mem_of_mem_build hg)
      obtain ⟨hs, hdef⟩ := Image.mem_symbols_of_mem_addressed hp
      exact fun hzero => hnonzero p.2 hs hdef (hvalue.trans hzero)

/-- An object file: four bytes of code at address zero and four bytes of data right after it. -/
def unlinkedImage : Image :=
  Image.ofParts 0x1000007 3 1 0 .little
    [⟨1, "__TEXT", "__text", 0, 4, 0, 0, 0, 0, 0x80000000, [0x90, 0x90, 0x90, 0xc3], []⟩,
     ⟨2, "__DATA", "__data", 4, 4, 0, 0, 0, 0, 0, [1, 0, 0, 0], []⟩]
    [⟨"_main", 0xf, 1, 0, 0⟩, ⟨"_value", 0xf, 2, 0, 4⟩, ⟨"_alias", 0xe, 2, 0, 4⟩]

theorem unlinkedImage_groups :
    (build unlinkedImage).groups = [⟨0, 4, [0], []⟩, ⟨4, 4, [1, 2], []⟩] := by
  have hgroups : unlinkedImage.groupSorted unlinkedImage.addressedSymbols =
      [⟨0, 4, [0], []⟩, ⟨4, 4, [1, 2], []⟩] :=
    Image.groupSorted_addressedSymbols (by decide) (by decide)
  rw [build, hgroups]
  rfl

theorem unlinkedImage_wellPlaced : unlinkedImage.WellPlaced where
  apart := by
    refine List.pairwise_pair.mpr fun a h => ?_
    obtain ⟨-, hlt⟩ := Section.contains_iff.mp h.1
    obtain ⟨hle, -⟩ := Section.contains_iff.mp h.2
    exact absurd (Nat.lt_of_le_of_lt hle hlt) (by decide)
  atHome := by
    intro s hs _
    obtain rfl | rfl | rfl : s = ⟨"_main", 0xf, 1, 0, 0⟩ ∨ s = ⟨"_value", 0xf, 2, 0, 4⟩ ∨
        s = ⟨"_alias", 0xe, 2, 0, 4⟩ := by simpa [unlinkedImage, Image.ofParts] using hs
    all_goals exact ⟨_, rfl, by decide, by decide⟩

/-- The code of an unlinked file starts at address zero, and look-up does not find it. -/
theorem lookup_misses_group_at_zero :
    unlinkedImage.WellPlaced ∧ (∃ g ∈ (build unlinkedImage).groups, g.Spans 0) ∧
      (build unlinkedImage).lookup 0 = none := by
  refine ⟨unlinkedImage_wellPlaced, ⟨⟨0, 4, [0], []⟩, ?_, by decide, by decide⟩, ?_⟩
  · simp [unlinkedImage_groups]
  · rw [lookup, covering?, unlinkedImage_groups]
    rfl

theorem unlinked_lookup_follows_extents_off_zero :
    unlinkedImage.WellPlaced ∧ (build unlinkedImage).FollowsExtents 6 ∧
      ¬ (build unlinkedImage).FollowsExtents 2 := by
  obtain ⟨hfollows, -, -⟩ := lookup_follows_extents_off_zero unlinkedImage_wellPlaced
  refine ⟨unlinkedImage_wellPlaced, (hfollows 6).mpr ?_, fun h => ?_⟩
  · intro g hg hspans
    rw [unlinkedImage_groups] at hg
    obtain rfl | rfl : g = ⟨0, 4, [0], []⟩ ∨ g = ⟨4, 4, [1, 2], []⟩ := by simpa using hg
    · exact absurd hspans.2 (by decide)
    · decide
  · exact (hfollows 2).mp h ⟨0, 4, [0], []⟩ (by simp [unlinkedImage_groups])
      ⟨by decide, by decide⟩ rfl

end SymbolIndex

end MachInspect
