-- SUMMARY: Order, members and extents of symbol groups, and the search for the group of an address.
import MachInspect.Symbols.Index

/-!
# Symbol groups

Groups come out of the sorted symbols in strictly increasing order of address, so the groups that
start at or before an address form a prefix and `candidate?` is the last of them. Extents are read
as ranges of plain numbers: no group reaches past the address space, so nothing is lost.
-/
namespace MachInspect

/-! ## Ranges -/

@[simp] theorem toNat_saturatingAdd (a b : UInt64) :
    (saturatingAdd a b).toNat = min (a.toNat + b.toNat) (2 ^ 64 - 1) := by
  have hlt : min (a.toNat + b.toNat) (2 ^ 64 - 1) < UInt64.size := by
    simp only [UInt64.size]
    omega
  exact UInt64.toNat_ofNat_of_lt' hlt

/-- The address is one of the section's, counted without a last address. -/
def Section.Spans (s : Section) (address : UInt64) : Prop :=
  s.addr.toNat ≤ address.toNat ∧ address.toNat < s.addr.toNat + s.size.toNat

theorem Section.contains_iff {s : Section} {a : UInt64} :
    s.contains a = true ↔ s.addr.toNat ≤ a.toNat ∧ a.toNat < s.limit.toNat := by
  simp [Section.contains, UInt64.le_iff_toNat_le, UInt64.lt_iff_toNat_lt]

namespace SymbolGroup

/-- The address is one of the group's extent. -/
def Spans (g : SymbolGroup) (address : UInt64) : Prop :=
  g.address.toNat ≤ address.toNat ∧ address.toNat < g.address.toNat + g.size.toNat

theorem contains_iff {g : SymbolGroup} {a : UInt64} :
    g.contains a = true ↔
      g.address.toNat ≤ a.toNat ∧
        a.toNat < min (g.address.toNat + g.size.toNat) (2 ^ 64 - 1) := by
  simp [SymbolGroup.contains, SymbolGroup.limit, UInt64.le_iff_toNat_le, UInt64.lt_iff_toNat_lt]

/-- An extent that ends inside the address space is not cut off. -/
theorem contains_iff_spans {g : SymbolGroup} {a : UInt64}
    (hfit : g.address.toNat + g.size.toNat < 2 ^ 64) : g.contains a = true ↔ g.Spans a := by
  rw [contains_iff, Spans, Nat.min_eq_left (by omega)]

end SymbolGroup

/-! ## Sorted symbols -/

namespace Image

/-- The symbols that stand for an address in a section, with their numbers, in table order. -/
def definedSymbols (image : Image) : List (Nat × Symbol) :=
  (image.symbols.mapIdx fun i s => (i, s)).filter fun p => p.2.isSectionDefined

/-- Numbered symbols in order of address. -/
def Ascending (symbols : List (Nat × Symbol)) : Prop :=
  symbols.Pairwise fun p q => p.2.value ≤ q.2.value

theorem mem_addressedSymbols {image : Image} {p : Nat × Symbol} :
    p ∈ image.addressedSymbols ↔ image.symbols[p.1]? = some p.2 ∧ p.2.isSectionDefined = true := by
  simp only [addressedSymbols, List.mem_mergeSort, List.mem_filter, List.mem_mapIdx]
  constructor
  · rintro ⟨⟨i, hi, rfl⟩, hdef⟩
    exact ⟨by simp, hdef⟩
  · rintro ⟨hget, hdef⟩
    obtain ⟨hi, heq⟩ := List.getElem?_eq_some_iff.mp hget
    exact ⟨⟨p.1, hi, by rw [heq]⟩, hdef⟩

theorem value_le_trans (a b c : Nat × Symbol) (hab : decide (a.2.value ≤ b.2.value) = true)
    (hbc : decide (b.2.value ≤ c.2.value) = true) : decide (a.2.value ≤ c.2.value) = true :=
  decide_eq_true (UInt64.le_trans (of_decide_eq_true hab) (of_decide_eq_true hbc))

theorem value_le_total (a b : Nat × Symbol) :
    (decide (a.2.value ≤ b.2.value) || decide (b.2.value ≤ a.2.value)) = true := by
  rcases UInt64.le_total a.2.value b.2.value with hab | hba
  · simp [hab]
  · simp [hba]

theorem ascending_addressedSymbols (image : Image) : Ascending image.addressedSymbols :=
  (List.pairwise_mergeSort value_le_trans value_le_total _).imp fun hab => of_decide_eq_true hab

/-- What comes after the aliases of a symbol starts at a higher address. -/
theorem lt_of_mem_later {index : Nat} {s : Symbol} {rest : List (Nat × Symbol)}
    (hsorted : Ascending ((index, s) :: rest)) {q : Nat × Symbol}
    (hq : q ∈ rest.dropWhile fun p => p.2.value == s.value) : s.value < q.2.value := by
  obtain ⟨hhead, hrest⟩ := List.pairwise_cons.mp hsorted
  cases hlater : rest.dropWhile (fun p => p.2.value == s.value) with
  | nil => simp [hlater] at hq
  | cons first later =>
    have hmem : first ∈ rest := (List.dropWhile_suffix _).mem (hlater ▸ List.mem_cons_self)
    have hne : ¬ (first.2.value == s.value) = true := by
      have := List.head_dropWhile_not (fun p : Nat × Symbol => p.2.value == s.value) (l := rest)
        (by simp [hlater])
      simpa [hlater] using this
    have hfirst : s.value < first.2.value := by
      have hle := hhead first hmem
      have hne' : first.2.value ≠ s.value := by simpa using hne
      exact UInt64.lt_of_le_of_ne hle (Ne.symm hne')
    have hlaterSorted : Ascending (first :: later) :=
      hlater ▸ hrest.sublist (List.dropWhile_sublist _)
    rw [hlater] at hq
    cases hq with
    | head => exact hfirst
    | tail _ htail =>
      exact UInt64.lt_of_lt_of_le hfirst ((List.pairwise_cons.mp hlaterSorted).1 q htail)

theorem ascending_later {index : Nat} {s : Symbol} {rest : List (Nat × Symbol)}
    (hsorted : Ascending ((index, s) :: rest)) (p : Nat × Symbol → Bool) :
    Ascending (rest.dropWhile p) :=
  (List.pairwise_cons.mp hsorted).2.sublist (List.dropWhile_sublist _)

/-! ## Grouping -/

/-- The group that a symbol leads: the symbol and the aliases right after it. -/
def leadGroup (image : Image) (index : Nat) (s : Symbol) (rest : List (Nat × Symbol)) :
    SymbolGroup where
  address := s.value
  size := image.extent s (rest.dropWhile fun p => p.2.value == s.value).head?
  aliases := index :: (rest.takeWhile fun p => p.2.value == s.value).map Prod.fst
  relocs := []

theorem groupSorted_cons (image : Image) (index : Nat) (s : Symbol) (rest : List (Nat × Symbol)) :
    image.groupSorted ((index, s) :: rest) =
      image.leadGroup index s rest
        :: image.groupSorted (rest.dropWhile fun p => p.2.value == s.value) := by
  rw [groupSorted, leadGroup]

/-- Whether sorted symbols have these groups. This can be evaluated where the groups are given. -/
def areGroups (image : Image) : List SymbolGroup → List (Nat × Symbol) → Bool
  | [], [] => true
  | g :: groups, (index, s) :: rest =>
    g == image.leadGroup index s rest &&
      image.areGroups groups (rest.dropWhile fun p => p.2.value == s.value)
  | _, _ => false

theorem groupSorted_eq_of_areGroups {image : Image} {groups : List SymbolGroup}
    {symbols : List (Nat × Symbol)} (h : image.areGroups groups symbols = true) :
    image.groupSorted symbols = groups := by
  fun_induction areGroups image groups symbols with
  | case1 => rw [groupSorted]
  | case2 g groups index s rest ih =>
    obtain ⟨hlead, hlater⟩ := Bool.and_eq_true_iff.mp h
    rw [groupSorted_cons, ih hlater, eq_of_beq hlead]
  | case3 => cases h

/-- The groups of a table that is in order of address already. -/
theorem groupSorted_addressedSymbols {image : Image} {groups : List SymbolGroup}
    (hsorted : image.definedSymbols.Pairwise fun p q => p.2.value ≤ q.2.value)
    (hgroups : image.areGroups groups image.definedSymbols = true) :
    image.groupSorted image.addressedSymbols = groups := by
  have htable : image.addressedSymbols = image.definedSymbols :=
    List.mergeSort_of_pairwise (hsorted.imp decide_eq_true)
  rw [htable, groupSorted_eq_of_areGroups hgroups]

/-- Every group is led by a symbol, and what follows the symbol decides the group. -/
theorem exists_lead_of_mem_groupSorted {image : Image} {symbols : List (Nat × Symbol)}
    {g : SymbolGroup} (hg : g ∈ image.groupSorted symbols) :
    ∃ index s rest, ((index, s) :: rest) <:+ symbols ∧ g = image.leadGroup index s rest := by
  induction symbols using groupSorted.induct with
  | case1 => simp [groupSorted] at hg
  | case2 index s rest _ ih =>
    rw [groupSorted_cons] at hg
    rcases List.mem_cons.mp hg with rfl | hg
    · exact ⟨index, s, rest, List.suffix_refl _, rfl⟩
    · obtain ⟨j, t, later, hsuffix, rfl⟩ := ih hg
      have hrest : ((j, t) :: later) <:+ rest := hsuffix.trans (List.dropWhile_suffix _)
      exact ⟨j, t, later, hrest.trans (List.suffix_cons (index, s) rest), rfl⟩

/-- Every alias of a group is one of the symbols, at the group's address. -/
theorem groupSorted_alias {image : Image} {symbols : List (Nat × Symbol)} {g : SymbolGroup}
    (hg : g ∈ image.groupSorted symbols) {i : Nat} (hi : i ∈ g.aliases) :
    ∃ s, (i, s) ∈ symbols ∧ s.value = g.address := by
  obtain ⟨index, s, rest, hsuffix, rfl⟩ := exists_lead_of_mem_groupSorted hg
  rcases List.mem_cons.mp hi with rfl | hi
  · exact ⟨s, hsuffix.mem List.mem_cons_self, rfl⟩
  · obtain ⟨p, hp, rfl⟩ := List.mem_map.mp hi
    have hvalue : (p.2.value == s.value) = true :=
      List.all_eq_true.mp (List.all_takeWhile (l := rest)) p hp
    have hrest : p ∈ rest := (List.takeWhile_prefix _).mem hp
    exact ⟨p.2, hsuffix.mem (List.mem_cons_of_mem _ hrest), eq_of_beq hvalue⟩

/-- A group stands at the address of one of the symbols. -/
theorem groupSorted_address {image : Image} {symbols : List (Nat × Symbol)} {g : SymbolGroup}
    (hg : g ∈ image.groupSorted symbols) : ∃ p ∈ symbols, p.2.value = g.address := by
  obtain ⟨index, s, rest, hsuffix, rfl⟩ := exists_lead_of_mem_groupSorted hg
  exact ⟨(index, s), hsuffix.mem List.mem_cons_self, rfl⟩

/-- The address of every symbol has a group. -/
theorem exists_groupSorted_of_mem (image : Image) {symbols : List (Nat × Symbol)}
    {p : Nat × Symbol} (hp : p ∈ symbols) :
    ∃ g ∈ image.groupSorted symbols, g.address = p.2.value := by
  induction symbols using groupSorted.induct with
  | case1 => simp at hp
  | case2 index s rest _ ih =>
    rw [groupSorted_cons]
    by_cases hvalue : p.2.value = s.value
    · exact ⟨_, List.mem_cons_self, hvalue.symm⟩
    · have hrest : p ∈ rest := by
        rcases List.mem_cons.mp hp with rfl | hrest
        · exact absurd rfl hvalue
        · exact hrest
      have hlater : p ∈ rest.dropWhile fun q => q.2.value == s.value := by
        rw [← List.takeWhile_append_dropWhile (p := fun q => q.2.value == s.value) (l := rest)]
          at hrest
        rcases List.mem_append.mp hrest with hsame | hlater
        · have := List.all_eq_true.mp (List.all_takeWhile (l := rest)) p hsame
          exact absurd (eq_of_beq this) hvalue
        · exact hlater
      obtain ⟨g, hg, haddress⟩ := ih hlater
      exact ⟨g, List.mem_cons_of_mem _ hg, haddress⟩

/-- Groups of sorted symbols have strictly increasing addresses. -/
theorem pairwise_groupSorted (image : Image) {symbols : List (Nat × Symbol)}
    (hsorted : Ascending symbols) :
    (image.groupSorted symbols).Pairwise fun g h => g.address < h.address := by
  induction symbols using groupSorted.induct with
  | case1 => simp [groupSorted]
  | case2 index s rest _ ih =>
    rw [groupSorted_cons]
    refine List.pairwise_cons.mpr ⟨?_, ih (ascending_later hsorted _)⟩
    intro h hh
    obtain ⟨q, hq, hvalue⟩ := groupSorted_address hh
    exact hvalue ▸ lt_of_mem_later hsorted hq

/-! ## Extents -/

theorem bytesToSectionEnd_fits (image : Image) (s : Symbol) :
    s.value.toNat + (image.bytesToSectionEnd s).toNat < 2 ^ 64 := by
  have hvalue := s.value.toNat_lt
  unfold bytesToSectionEnd
  cases image.home? s with
  | none => simpa using hvalue
  | some home =>
    by_cases hle : s.value ≤ home.limit
    · have hlimit := home.limit.toNat_lt
      have hle' := UInt64.le_iff_toNat_le.mp hle
      simp only [hle, if_true, UInt64.toNat_sub_of_le _ _ hle]
      omega
    · simpa [hle] using hvalue

/-- A symbol's extent never wraps around, if the next symbol is not before it. -/
theorem extent_fits (image : Image) (s : Symbol) (next? : Option (Nat × Symbol))
    (hnext : ∀ q ∈ next?, s.value ≤ q.2.value) :
    s.value.toNat + (image.extent s next?).toNat < 2 ^ 64 := by
  cases next? with
  | none => exact bytesToSectionEnd_fits image s
  | some q =>
    unfold extent
    by_cases hsect : q.2.sect = s.sect
    · have hle := hnext q rfl
      have hle' := UInt64.le_iff_toNat_le.mp hle
      have hvalue := q.2.value.toNat_lt
      simp only [hsect, if_true, UInt64.toNat_sub_of_le _ _ hle]
      omega
    · simpa [hsect] using bytesToSectionEnd_fits image s

theorem groupSorted_fits {image : Image} {symbols : List (Nat × Symbol)}
    (hsorted : Ascending symbols) {g : SymbolGroup} (hg : g ∈ image.groupSorted symbols) :
    g.address.toNat + g.size.toNat < 2 ^ 64 := by
  obtain ⟨index, s, rest, hsuffix, rfl⟩ := exists_lead_of_mem_groupSorted hg
  have hlead : Ascending ((index, s) :: rest) := hsorted.sublist hsuffix.sublist
  refine extent_fits image s _ fun q hq => ?_
  exact UInt64.le_of_lt (lt_of_mem_later hlead (List.mem_of_mem_head? hq))

end Image

/-! ## Groups of an index -/

/-- The group without its relocations. -/
def SymbolGroup.bare (g : SymbolGroup) : SymbolGroup := { g with relocs := [] }

namespace SymbolIndex

/-- Binding relocations changes nothing else about a group. -/
theorem map_bare_build (image : Image) :
    (build image).groups.map SymbolGroup.bare = image.groupSorted image.addressedSymbols := by
  apply List.ext_getElem?
  intro k
  simp only [build, List.getElem?_map, List.getElem?_mapIdx, Option.map_map]
  cases hk : (image.groupSorted image.addressedSymbols)[k]? with
  | none => rfl
  | some g =>
    obtain ⟨index, s, rest, -, rfl⟩ :=
      Image.exists_lead_of_mem_groupSorted (List.mem_of_getElem? hk)
    rfl

theorem bare_mem_of_mem_build {image : Image} {g : SymbolGroup} (hg : g ∈ (build image).groups) :
    g.bare ∈ image.groupSorted image.addressedSymbols :=
  map_bare_build image ▸ List.mem_map_of_mem hg

theorem pairwise_build (image : Image) :
    (build image).groups.Pairwise fun g h => g.address < h.address := by
  have hsorted := image.pairwise_groupSorted image.ascending_addressedSymbols
  rw [← map_bare_build, List.pairwise_map] at hsorted
  exact hsorted

theorem build_fits {image : Image} {g : SymbolGroup} (hg : g ∈ (build image).groups) :
    g.address.toNat + g.size.toNat < 2 ^ 64 := by
  have hbare := Image.groupSorted_fits image.ascending_addressedSymbols (bare_mem_of_mem_build hg)
  exact hbare

end SymbolIndex

/-! ## The last group at or before an address -/

namespace SymbolIndex

/-- The group at position `k` is the last one that starts at or before `address`. -/
structure LastStart (groups : List SymbolGroup) (address : UInt64) (k : Nat) (g : SymbolGroup) :
    Prop where
  found : groups[k]? = some g
  started : g.address ≤ address
  last : ∀ {j : Nat} {h : SymbolGroup}, groups[j]? = some h → h.address ≤ address → j ≤ k

theorem LastStart.unique {groups : List SymbolGroup} {a : UInt64} {k k' : Nat}
    {g g' : SymbolGroup} (h : LastStart groups a k g) (h' : LastStart groups a k' g') :
    k = k' ∧ g = g' := by
  have hk : k = k' := Nat.le_antisymm (h'.last h.found h.started) (h.last h'.found h'.started)
  subst hk
  exact ⟨rfl, Option.some.inj (h.found.symm.trans h'.found)⟩

/-- In groups with increasing addresses, those that have started by `address` come first. -/
theorem address_le_iff_lt_startedBy {groups : List SymbolGroup} {a : UInt64}
    (hsorted : groups.Pairwise fun g h => g.address < h.address) {k : Nat} {g : SymbolGroup}
    (hk : groups[k]? = some g) : g.address ≤ a ↔ k < startedBy groups a := by
  induction groups generalizing k with
  | nil => simp at hk
  | cons first rest ih =>
    obtain ⟨hfirst, hrest⟩ := List.pairwise_cons.mp hsorted
    by_cases hle : first.address ≤ a
    · have hcount : startedBy (first :: rest) a = startedBy rest a + 1 := by
        simp [startedBy, hle]
      cases k with
      | zero =>
        obtain rfl : first = g := by simpa using hk
        simp [hcount, hle]
      | succ k =>
        rw [hcount, Nat.succ_lt_succ_iff]
        exact ih hrest (by simpa using hk)
    · have hcount : startedBy (first :: rest) a = 0 := by
        simp [startedBy, hle]
      have hgt : a < first.address := UInt64.not_le.mp hle
      cases k with
      | zero =>
        obtain rfl : first = g := by simpa using hk
        simp [hcount, hle]
      | succ k =>
        have hlt := hfirst g (List.mem_of_getElem? (by simpa using hk))
        have hnot : ¬ g.address ≤ a := UInt64.not_le.mpr (UInt64.lt_trans hgt hlt)
        simp [hcount, hnot]

theorem candidate?_eq_some_iff {groups : List SymbolGroup} {a : UInt64} {k : Nat} :
    candidate? groups a = some k ↔ startedBy groups a = k + 1 := by
  unfold candidate?
  cases startedBy groups a with
  | zero => simp
  | succ n => simp

theorem startedBy_le_length (groups : List SymbolGroup) (a : UInt64) :
    startedBy groups a ≤ groups.length :=
  (List.takeWhile_prefix _).length_le

/-- The candidate of an address is the last group that starts at or before it. -/
theorem candidate?_eq_some_iff_lastStart {groups : List SymbolGroup} {a : UInt64}
    (hsorted : groups.Pairwise fun g h => g.address < h.address) {k : Nat} :
    candidate? groups a = some k ↔ ∃ g, LastStart groups a k g := by
  rw [candidate?_eq_some_iff]
  constructor
  · intro hcount
    have hlen := startedBy_le_length groups a
    have hk : groups[k]? = some (groups.get ⟨k, by omega⟩) :=
      List.getElem?_eq_getElem (by omega)
    refine ⟨_, hk, (address_le_iff_lt_startedBy hsorted hk).mpr (by omega), ?_⟩
    intro j h hj hle
    have := (address_le_iff_lt_startedBy hsorted hj).mp hle
    omega
  · rintro ⟨g, hlast⟩
    have hlt := (address_le_iff_lt_startedBy hsorted hlast.found).mp hlast.started
    have hlen := startedBy_le_length groups a
    rcases Nat.lt_or_ge (k + 1) (startedBy groups a) with hmore | hless
    · -- A group past `k` that has started would be later than the last one.
      have hk : groups[k + 1]? = some (groups.get ⟨k + 1, by omega⟩) :=
        List.getElem?_eq_getElem (by omega)
      have hle := hlast.last hk ((address_le_iff_lt_startedBy hsorted hk).mpr hmore)
      omega
    · omega

end SymbolIndex

end MachInspect
