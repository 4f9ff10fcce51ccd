-- SUMMARY: The groups of an index hold each symbol that stands for an address exactly once.
import MachInspect.Proofs.Symbols.Order

/-!
# Members of symbol groups

The groups share out the symbols that stand for an address in a section: each is in one group,
together with all others of its address, and inside a group symbols stay in table order. The order
inside a group comes from the stability of sorting, so it is proved there, for all symbols of one
address at once. The map back is filled group by group, so that `groupOf?` finds the one group that
a symbol is in.
-/
namespace MachInspect

namespace Image

section Table

variable (image : Image)

/-! ## Table order -/

/-- The symbol with this number stands for an address in a section. -/
def defines (i : Nat) : Bool := image.symbols[i]?.any Symbol.isSectionDefined

theorem pairwise_definedSymbols : image.definedSymbols.Pairwise fun p q => p.1 < q.1 := by
  refine List.Pairwise.filter _ (List.pairwise_iff_getElem.mpr fun i j hi hj hij => ?_)
  simpa using hij

variable {image}

theorem defines_iff {i : Nat} :
    image.defines i = true ↔ ∃ s, image.symbols[i]? = some s ∧ s.isSectionDefined = true := by
  simp [defines, Option.any_eq_true]

theorem lt_length_of_defines {i : Nat} (h : image.defines i = true) : i < image.symbols.length := by
  obtain ⟨s, hs, -⟩ := defines_iff.mp h
  exact (List.getElem?_eq_some_iff.mp hs).1

/-- Sorting by address leaves the symbols of one address in table order. -/
theorem filter_addressedSymbols (a : UInt64) :
    (image.addressedSymbols.filter fun p => p.2.value == a) =
      image.definedSymbols.filter fun p => p.2.value == a := by
  have hsame : (image.definedSymbols.filter fun p => p.2.value == a).Pairwise
      fun p q => decide (p.2.value ≤ q.2.value) = true := by
    refine List.pairwise_of_forall_mem_list fun p hp q hq => ?_
    have hp' : p.2.value = a := eq_of_beq (List.mem_filter.mp hp).2
    have hq' : q.2.value = a := eq_of_beq (List.mem_filter.mp hq).2
    simp [hp', hq']
  have hsublist : (image.definedSymbols.filter fun p => p.2.value == a).Sublist
      (image.addressedSymbols.filter fun p => p.2.value == a) := by
    have hsorted : (image.definedSymbols.filter fun p => p.2.value == a).Sublist
        image.addressedSymbols :=
      List.sublist_mergeSort value_le_trans value_le_total hsame List.filter_sublist
    simpa [List.filter_filter] using hsorted.filter fun p => p.2.value == a
  refine (hsublist.eq_of_length ?_).symm
  exact (((List.mergeSort_perm _ _).filter _).length_eq).symm

end Table

/-! ## Sharing out -/

/-- Side by side, the members of the groups are the symbols that were grouped. -/
theorem flatMap_aliases_groupSorted (image : Image) (symbols : List (Nat × Symbol)) :
    (image.groupSorted symbols).flatMap SymbolGroup.aliases = symbols.map Prod.fst := by
  induction symbols using groupSorted.induct with
  | case1 => simp [groupSorted]
  | case2 index s rest _ ih =>
    rw [groupSorted_cons, List.flatMap_cons, ih, leadGroup, List.cons_append, ← List.map_append,
      List.takeWhile_append_dropWhile]
    rfl

end Image

namespace SymbolIndex

variable {image : Image} {g : SymbolGroup} {i : Nat}

theorem flatMap_aliases_build :
    (build image).groups.flatMap SymbolGroup.aliases = image.addressedSymbols.map Prod.fst := by
  have hbare := image.flatMap_aliases_groupSorted image.addressedSymbols
  rwa [← map_bare_build, List.flatMap_map] at hbare

theorem perm_aliases_build :
    ((build image).groups.flatMap SymbolGroup.aliases).Perm
      ((List.range image.symbols.length).filter image.defines) := by
  rw [flatMap_aliases_build]
  refine ((List.mergeSort_perm _ _).map _).trans ?_
  have hdistinct : (image.definedSymbols.map Prod.fst).Nodup :=
    List.pairwise_map.mpr (image.pairwise_definedSymbols.imp Nat.ne_of_lt)
  refine (List.perm_ext_iff_of_nodup hdistinct (List.nodup_range.filter _)).mpr fun i => ?_
  simp only [Image.definedSymbols, List.mem_map, List.mem_filter, List.mem_mapIdx, List.mem_range]
  constructor
  · rintro ⟨p, ⟨⟨j, hj, rfl⟩, hdef⟩, rfl⟩
    exact ⟨hj, Image.defines_iff.mpr ⟨_, List.getElem?_eq_getElem hj, hdef⟩⟩
  · rintro ⟨hi, hdefines⟩
    obtain ⟨s, hs, hdef⟩ := Image.defines_iff.mp hdefines
    obtain ⟨hi, rfl⟩ := List.getElem?_eq_some_iff.mp hs
    exact ⟨_, ⟨⟨i, hi, rfl⟩, hdef⟩, rfl⟩

/-- The members of a group are in table order. -/
theorem pairwise_aliases_build (hg : g ∈ (build image).groups) : g.aliases.Pairwise (· < ·) := by
  have haliases : g.bare.aliases =
      (image.addressedSymbols.filter fun p => p.2.value == g.bare.address).map Prod.fst :=
    Image.groupSorted_aliases image.ascending_addressedSymbols (bare_mem_of_mem_build hg)
  rw [Image.filter_addressedSymbols] at haliases
  have horder := image.pairwise_definedSymbols.filter fun p => p.2.value == g.bare.address
  exact haliases ▸ List.pairwise_map.mpr horder

/-! ## The group of a symbol -/

theorem mem_aliases_iff_defines :
    (∃ g ∈ (build image).groups, i ∈ g.aliases) ↔ image.defines i = true := by
  rw [← List.mem_flatMap, perm_aliases_build.mem_iff, List.mem_filter, List.mem_range]
  exact ⟨And.right, fun h => ⟨Image.lt_length_of_defines h, h⟩⟩

/-- No two groups share a member: the symbol's value is the address of both. -/
theorem eq_of_mem_aliases {h : SymbolGroup} (hg : g ∈ (build image).groups)
    (hh : h ∈ (build image).groups) (hi : i ∈ g.aliases) (hi' : i ∈ h.aliases) : g = h := by
  obtain ⟨s, hs, -, hvalue⟩ := exists_symbol_of_alias hg hi
  obtain ⟨s', hs', -, hvalue'⟩ := exists_symbol_of_alias hh hi'
  obtain rfl := Option.some.inj (hs.symm.trans hs')
  exact eq_of_address_eq hg hh (hvalue.symm.trans hvalue')

/-- Each position holds a group of its own. -/
theorem eq_of_getElem?_build {k j : Nat} (hk : (build image).groups[k]? = some g)
    (hj : (build image).groups[j]? = some g) : k = j := by
  have hdistinct : (build image).groups.Nodup := by
    refine (pairwise_build image).imp fun hlt heq => ?_
    exact UInt64.ne_of_lt hlt (congrArg SymbolGroup.address heq)
  obtain ⟨hk', -⟩ := List.getElem?_eq_some_iff.mp hk
  exact (List.getElem?_inj hk' hdistinct).mp (hk.trans hj.symm)

/-! ## The map back -/

/-- One group: its members are at its position, all others where they were. -/
theorem getElem?_enter (places : Array (Option Nat)) (position : Nat) (g : SymbolGroup) (i : Nat) :
    (enter places position g)[i]? =
      if i ∈ g.aliases ∧ i < places.size then some (some position) else places[i]? := by
  unfold enter
  induction g.aliases generalizing places with
  | nil => simp
  | cons j rest ih =>
    rw [List.foldl_cons, ih, Array.size_setIfInBounds, Array.getElem?_setIfInBounds]
    by_cases hj : j = i
    · by_cases hi : i < places.size <;> simp [hi, hj]
    · simp [hj, Ne.symm hj]

theorem size_enter (places : Array (Option Nat)) (position : Nat) (g : SymbolGroup) :
    (enter places position g).size = places.size := by
  unfold enter
  induction g.aliases generalizing places with
  | nil => rfl
  | cons j rest ih => rw [List.foldl_cons, ih, Array.size_setIfInBounds]

theorem enterAll_cons (places : Array (Option Nat)) (g : SymbolGroup) (groups : List SymbolGroup)
    (first : Nat) :
    enterAll places (g :: groups) first = enterAll (enter places first g) groups (first + 1) := by
  rw [enterAll, List.zipIdx_cons, List.foldl_cons, enterAll]

/-- Groups that a symbol is not in leave its place alone. -/
theorem getElem?_enterAll_of_not_mem {groups : List SymbolGroup} {i : Nat}
    (hout : ∀ g ∈ groups, i ∉ g.aliases) (places : Array (Option Nat)) (first : Nat) :
    (enterAll places groups first)[i]? = places[i]? := by
  induction groups generalizing places first with
  | nil => rfl
  | cons g rest ih =>
    have hg : i ∉ g.aliases := hout g List.mem_cons_self
    rw [enterAll_cons, ih fun h hh => hout h (List.mem_cons_of_mem g hh), getElem?_enter]
    exact if_neg fun h => hg h.1

/-- The place of a symbol is the position of the only group that it is in. -/
theorem getElem?_enterAll_of_mem {groups : List SymbolGroup} {k i : Nat} {g : SymbolGroup}
    (hk : groups[k]? = some g) (hi : i ∈ g.aliases)
    (honly : ∀ j h, groups[j]? = some h → i ∈ h.aliases → j = k) {places : Array (Option Nat)}
    (hsize : i < places.size) (first : Nat) :
    (enterAll places groups first)[i]? = some (some (first + k)) := by
  induction groups generalizing places first k with
  | nil => simp at hk
  | cons lead rest ih =>
    rw [enterAll_cons]
    cases k with
    | zero =>
      obtain rfl : lead = g := by simpa using hk
      have hlater : ∀ h ∈ rest, i ∉ h.aliases := by
        intro h hh hmem
        obtain ⟨j, hj⟩ := List.mem_iff_getElem?.mp hh
        exact Nat.succ_ne_zero j (honly (j + 1) h (by simpa using hj) hmem)
      rw [getElem?_enterAll_of_not_mem hlater, getElem?_enter]
      exact if_pos ⟨hi, hsize⟩
    | succ k =>
      have hrest : ∀ j h, rest[j]? = some h → i ∈ h.aliases → j = k := by
        intro j h hj hmem
        exact Nat.succ.inj (honly (j + 1) h (by simpa using hj) hmem)
      have hsize' : i < (enter places first lead).size := by rwa [size_enter]
      rw [ih (by simpa using hk) hrest hsize', Nat.add_right_comm, Nat.add_assoc]

/-- The map back is made before relocations are bound; that does not move any group. -/
theorem getElem?_groupSorted (k : Nat) :
    (image.groupSorted image.addressedSymbols)[k]? =
      ((build image).groups[k]?).map SymbolGroup.bare := by
  rw [← map_bare_build, List.getElem?_map]

theorem places_build : (build image).places =
    enterAll (.replicate image.symbols.length none) (image.groupSorted image.addressedSymbols) 0 :=
  rfl

/-- A member has the position of its group as its place. -/
theorem getElem?_places_of_mem {k : Nat} (hk : (build image).groups[k]? = some g)
    (hi : i ∈ g.aliases) : (build image).places[i]? = some (some k) := by
  have hbare : (image.groupSorted image.addressedSymbols)[k]? = some g.bare := by
    rw [getElem?_groupSorted, hk]
    rfl
  have honly : ∀ j h, (image.groupSorted image.addressedSymbols)[j]? = some h →
      i ∈ h.aliases → j = k := by
    intro j h hj hi'
    rw [getElem?_groupSorted, Option.map_eq_some_iff] at hj
    obtain ⟨h', hj', rfl⟩ := hj
    obtain rfl := eq_of_mem_aliases (List.mem_of_getElem? hk) (List.mem_of_getElem? hj') hi hi'
    exact eq_of_getElem?_build hj' hk
  have hlt : i < (Array.replicate image.symbols.length (none : Option Nat)).size := by
    obtain ⟨s, hs, -, -⟩ := exists_symbol_of_alias (List.mem_of_getElem? hk) hi
    rw [Array.size_replicate]
    exact (List.getElem?_eq_some_iff.mp hs).1
  rw [places_build, getElem?_enterAll_of_mem hbare hi honly hlt 0, Nat.zero_add]

/-- A symbol in no group has no place. -/
theorem getElem?_places_of_not_mem (hout : ∀ g ∈ (build image).groups, i ∉ g.aliases) (k : Nat) :
    (build image).places[i]? ≠ some (some k) := by
  have hbare : ∀ g ∈ image.groupSorted image.addressedSymbols, i ∉ g.aliases := by
    intro g hg
    rw [← map_bare_build] at hg
    obtain ⟨h, hh, rfl⟩ := List.mem_map.mp hg
    exact hout h hh
  rw [places_build, getElem?_enterAll_of_not_mem hbare, Array.getElem?_replicate]
  split <;> simp

/-- The place of a symbol is the position of the group that it is a member of. -/
theorem getElem?_places_build {k : Nat} :
    (build image).places[i]? = some (some k) ↔
      ∃ g, (build image).groups[k]? = some g ∧ i ∈ g.aliases := by
  constructor
  · intro hplace
    by_cases hin : ∃ g ∈ (build image).groups, i ∈ g.aliases
    · obtain ⟨g, hg, hi⟩ := hin
      obtain ⟨j, hj⟩ := List.mem_iff_getElem?.mp hg
      obtain rfl : j = k := by simpa [getElem?_places_of_mem hj hi] using hplace
      exact ⟨g, hj, hi⟩
    · have hout : ∀ g ∈ (build image).groups, i ∉ g.aliases := fun g hg hi => hin ⟨g, hg, hi⟩
      exact absurd hplace (getElem?_places_of_not_mem hout k)
  · rintro ⟨g, hk, hi⟩
    exact getElem?_places_of_mem hk hi

theorem groupOf?_build_eq_some_iff :
    (build image).groupOf? i = some g ↔ g ∈ (build image).groups ∧ i ∈ g.aliases := by
  have hfound : (build image).groupOf? i = some g ↔
      ∃ k, (build image).places[i]? = some (some k) ∧ (build image).groups[k]? = some g := by
    simp only [groupOf?, bind, Option.bind_eq_some_iff]
    constructor
    · rintro ⟨_, hplace, k, rfl, hk⟩
      exact ⟨k, hplace, hk⟩
    · rintro ⟨k, hplace, hk⟩
      exact ⟨some k, hplace, k, rfl, hk⟩
  rw [hfound]
  constructor
  · rintro ⟨k, hplace, hk⟩
    obtain ⟨h, hk', hi⟩ := getElem?_places_build.mp hplace
    obtain rfl := Option.some.inj (hk.symm.trans hk')
    exact ⟨List.mem_of_getElem? hk, hi⟩
  · rintro ⟨hg, hi⟩
    obtain ⟨k, hk⟩ := List.mem_iff_getElem?.mp hg
    exact ⟨k, getElem?_places_build.mpr ⟨g, hk, hi⟩, hk⟩

/-- The groups of the index share out the symbols of the image by address. -/
structure Represents (index : SymbolIndex) (image : Image) : Prop where
  /-- One group for each address, in order of address. -/
  increasing : index.groups.Pairwise fun g h => g.address < h.address
  /-- The members are the symbols that stand for an address in a section, each of them once. -/
  members : (index.groups.flatMap SymbolGroup.aliases).Perm
    ((List.range image.symbols.length).filter image.defines)
  /-- The members of a group stand for its address. -/
  value_eq : ∀ g ∈ index.groups, ∀ i ∈ g.aliases, ∃ s, image.symbols[i]? = some s ∧
    s.value = g.address
  /-- The members of a group are in table order. -/
  tableOrder : ∀ g ∈ index.groups, g.aliases.Pairwise (· < ·)
  /-- The place of a symbol is the position of the group that has it as a member. -/
  places : ∀ i k, index.places[i]? = some (some k) ↔
    ∃ g : SymbolGroup, index.groups[k]? = some g ∧ i ∈ g.aliases
  /-- A number has a group if and only if it is that of a symbol in a section. -/
  found : ∀ i, (index.groupOf? i).isSome = true ↔
    ∃ s, image.symbols[i]? = some s ∧ s.isSectionDefined = true
  /-- The group of a symbol is at the only position whose group has the symbol. -/
  owner : ∀ i g, index.groupOf? i = some g → ∃ k, index.groups[k]? = some g ∧ i ∈ g.aliases ∧
    ∀ (j : Nat) (h : SymbolGroup), index.groups[j]? = some h → i ∈ h.aliases → j = k

/-- In every index the groups have increasing addresses and share out the symbols that stand for an
address in a section: each of them is in one group, that of its address, in table order, and there
`groupOf?` finds it. Other symbols are in no group. -/
theorem build_represents_image (image : Image) : (build image).Represents image where
  increasing := pairwise_build image
  members := perm_aliases_build
  value_eq := by
    intro g hg i hi
    obtain ⟨s, hs, -, hvalue⟩ := exists_symbol_of_alias hg hi
    exact ⟨s, hs, hvalue⟩
  tableOrder := fun g hg => pairwise_aliases_build hg
  places := fun _ _ => getElem?_places_build
  found := by
    intro i
    rw [← Image.defines_iff, ← mem_aliases_iff_defines, Option.isSome_iff_exists]
    exact exists_congr fun g => groupOf?_build_eq_some_iff
  owner := by
    intro i g hfound
    obtain ⟨hg, hi⟩ := groupOf?_build_eq_some_iff.mp hfound
    obtain ⟨k, hk⟩ := List.mem_iff_getElem?.mp hg
    refine ⟨k, hk, hi, fun j h hj hi' => ?_⟩
    obtain rfl := eq_of_mem_aliases hg (List.mem_of_getElem? hj) hi hi'
    exact eq_of_getElem?_build hj hk

end SymbolIndex

end MachInspect
