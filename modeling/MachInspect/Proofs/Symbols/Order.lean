-- SUMMARY: When the order of the symbols in the table does and does not matter for the groups.
import MachInspect.Proofs.Symbols.Binding
import MachInspect.Proofs.Symbols.Lookup

/-!
# The order of symbols

Reordering the symbols of an image changes neither the addresses of the groups nor the names at
each address. A group takes its extent from the first of its symbols, though. This makes a
difference if and only if a label at the end of one section shares its address with a symbol that is
not at the end of its own: the extent is empty if the label comes first, and not empty otherwise.
-/
namespace MachInspect

/-- A list whose first part passes a test and whose second part does not is split by the test. -/
theorem filter_append_eq {α : Type} {p : α → Bool} {first second : List α}
    (hfirst : ∀ a ∈ first, p a = true) (hsecond : ∀ a ∈ second, p a = false) :
    (first ++ second).filter p = first ∧ ((first ++ second).filter fun a => !p a) = second := by
  have hdrop : second.filter p = [] := List.filter_eq_nil_iff.mpr (by simpa using hsecond)
  have hdrop' : (first.filter fun a => !p a) = [] :=
    List.filter_eq_nil_iff.mpr (by simpa using hfirst)
  have hkeep : (second.filter fun a => !p a) = second :=
    List.filter_eq_self.mpr (by simpa using hsecond)
  constructor
  · rw [List.filter_append, List.filter_eq_self.mpr hfirst, hdrop, List.append_nil]
  · rw [List.filter_append, hdrop', hkeep, List.nil_append]

namespace Image

/-! ## Sorted symbols -/

section Sorted

variable {index : Nat} {s : Symbol} {rest symbols symbols' : List (Nat × Symbol)}

/-- The aliases of a symbol are all that has its address, and what comes after them is all that has
another one. -/
theorem aliases_later_eq (hsorted : Ascending ((index, s) :: rest)) :
    (rest.takeWhile fun p => p.2.value == s.value) = (rest.filter fun p => p.2.value == s.value) ∧
    (rest.dropWhile fun p => p.2.value == s.value) = rest.filter fun p => p.2.value != s.value := by
  have hsame : ∀ p ∈ rest.takeWhile (fun p => p.2.value == s.value),
      (p.2.value == s.value) = true := List.all_eq_true.mp List.all_takeWhile
  have hlater : ∀ p ∈ rest.dropWhile (fun p => p.2.value == s.value),
      (p.2.value == s.value) = false := by
    intro p hp
    have hlt := lt_of_mem_later hsorted hp
    simpa using Ne.symm (UInt64.ne_of_lt hlt)
  obtain ⟨haliases, hrest⟩ := filter_append_eq hsame hlater
  rw [List.takeWhile_append_dropWhile] at haliases hrest
  exact ⟨haliases.symm, hrest.symm⟩

theorem head_le_of_mem {p : Nat × Symbol} (hsorted : Ascending (p :: rest)) {t : Symbol}
    (ht : t ∈ (p :: rest).map Prod.snd) : p.2.value ≤ t.value := by
  obtain ⟨q, hq, rfl⟩ := List.mem_map.mp ht
  rcases List.mem_cons.mp hq with rfl | hq
  · exact UInt64.le_refl _
  · exact (List.pairwise_cons.mp hsorted).1 q hq

/-- The first address does not depend on the order of the aliases. -/
theorem head?_value_eq (hsorted : Ascending symbols) (hsorted' : Ascending symbols')
    (hperm : (symbols.map Prod.snd).Perm (symbols'.map Prod.snd)) :
    symbols.head?.map (fun p => p.2.value) = symbols'.head?.map fun p => p.2.value := by
  cases symbols with
  | nil =>
    obtain rfl : symbols' = [] := by simpa using hperm.symm
    rfl
  | cons p rest =>
    cases symbols' with
    | nil => simp at hperm
    | cons p' rest' =>
      have hle : p.2.value ≤ p'.2.value :=
        head_le_of_mem hsorted (hperm.mem_iff.mpr (by simp))
      have hge : p'.2.value ≤ p.2.value :=
        head_le_of_mem hsorted' (hperm.mem_iff.mp (by simp))
      simpa using UInt64.le_antisymm hle hge

theorem perm_later {index' : Nat} {s' : Symbol} {rest' : List (Nat × Symbol)}
    (hsorted : Ascending ((index, s) :: rest)) (hsorted' : Ascending ((index', s') :: rest'))
    (hvalue : s.value = s'.value)
    (hperm : (((index, s) :: rest).map Prod.snd).Perm (((index', s') :: rest').map Prod.snd)) :
    ((rest.dropWhile fun p => p.2.value == s.value).map Prod.snd).Perm
      ((rest'.dropWhile fun p => p.2.value == s'.value).map Prod.snd) := by
  have hfilter := hperm.filter fun t => t.value != s.value
  rw [(aliases_later_eq hsorted).2, (aliases_later_eq hsorted').2, ← hvalue]
  simpa [List.filter_map, Function.comp_def, ← hvalue] using hfilter

/-- Two orders of the same symbols have groups that agree on `f`, one by one, if those that two
symbols of one address lead agree on it. -/
theorem map_groupSorted_eq {α : Type} (image : Image) (f : SymbolGroup → α)
    (hsorted : Ascending symbols) (hsorted' : Ascending symbols')
    (hperm : (symbols.map Prod.snd).Perm (symbols'.map Prod.snd))
    (hlead : ∀ {i s rest i' s' rest'}, ((i, s) :: rest) <:+ symbols →
      ((i', s') :: rest') <:+ symbols' → s.value = s'.value →
      ((rest.dropWhile fun p => p.2.value == s.value).map Prod.snd).Perm
        ((rest'.dropWhile fun p => p.2.value == s'.value).map Prod.snd) →
      f (image.leadGroup i s rest) = f (image.leadGroup i' s' rest')) :
    (image.groupSorted symbols).map f = (image.groupSorted symbols').map f := by
  induction symbols using groupSorted.induct generalizing symbols' with
  | case1 =>
    obtain rfl : symbols' = [] := by simpa using hperm.symm
    rfl
  | case2 index s rest later =>
    rename_i ih
    have hhead := head?_value_eq hsorted hsorted' hperm
    cases symbols' with
    | nil => simp at hperm
    | cons p' rest' =>
      obtain ⟨index', s'⟩ := p'
      have hvalue : s.value = s'.value := by simpa using hhead
      have hlater := perm_later hsorted hsorted' hvalue hperm
      rw [groupSorted_cons, groupSorted_cons, List.map_cons, List.map_cons,
        hlead (List.suffix_refl _) (List.suffix_refl _) hvalue hlater]
      congr 1
      refine ih (ascending_later hsorted _) (ascending_later hsorted' _) hlater ?_
      intro i t later i' t' later' hsuffix hsuffix' heq hrest
      exact hlead
        (hsuffix.trans ((List.dropWhile_suffix _).trans (List.suffix_cons _ _)))
        (hsuffix'.trans ((List.dropWhile_suffix _).trans (List.suffix_cons _ _))) heq hrest

end Sorted

/-! ## Labels at the end of a section -/

/-- The symbol is in the table and stands for an address in a section. -/
def Addressed (image : Image) (s : Symbol) : Prop :=
  s ∈ image.symbols ∧ s.isSectionDefined = true

/-- No two sections share an address, and every symbol that stands for an address in a section
stands for one of the section it declares, or for the end of that section. -/
structure Housed (image : Image) : Prop where
  apart : image.sections.Pairwise fun s t => ∀ a, ¬ (s.contains a = true ∧ t.contains a = true)
  atHome : ∀ s, image.Addressed s → ∃ home, image.home? s = some home ∧
    home.addr.toNat ≤ s.value.toNat ∧ s.value.toNat ≤ home.addr.toNat + home.size.toNat

/-- The symbol is a label at the end of its section: nothing of the section comes after it. -/
def EndsSection (image : Image) (s : Symbol) : Prop :=
  ∃ home, image.home? s = some home ∧ s.value = home.limit

instance (image : Image) (s : Symbol) : Decidable (image.EndsSection s) :=
  inferInstanceAs (Decidable (∃ home ∈ image.home? s, s.value = home.limit))

/-- Symbols that share an address are at the end of their sections all together, or none is. -/
def EndsApart (image : Image) : Prop :=
  ∀ s t, image.Addressed s → image.Addressed t → s.value = t.value →
    image.EndsSection s → image.EndsSection t

section Extents

variable {image : Image} {s t : Symbol} {home : Section} {next? : Option (Nat × Symbol)}

theorem Housed.le_limit (hhoused : image.Housed) (hs : image.Addressed s)
    (hhome : image.home? s = some home) : s.value ≤ home.limit := by
  obtain ⟨home', hhome', -, hle⟩ := hhoused.atHome s hs
  obtain rfl := Option.some.inj (hhome.symm.trans hhome')
  have hvalue := s.value.toNat_lt
  rw [UInt64.le_iff_toNat_le]
  simp only [Section.limit, toNat_saturatingAdd]
  omega

theorem Housed.lt_limit (hhoused : image.Housed) (hs : image.Addressed s)
    (hhome : image.home? s = some home) (hends : ¬ image.EndsSection s) : s.value < home.limit :=
  UInt64.lt_of_le_of_ne (hhoused.le_limit hs hhome) fun heq => hends ⟨home, hhome, heq⟩

theorem Housed.contains (hhoused : image.Housed) (hs : image.Addressed s)
    (hhome : image.home? s = some home) (hends : ¬ image.EndsSection s) :
    home.contains s.value = true := by
  obtain ⟨home', hhome', hle, -⟩ := hhoused.atHome s hs
  obtain rfl := Option.some.inj (hhome.symm.trans hhome')
  exact Section.contains_iff.mpr ⟨hle, UInt64.lt_iff_toNat_lt.mp (hhoused.lt_limit hs hhome hends)⟩

/-- Symbols at one address that are not at the end of their sections have the same section. -/
theorem Housed.sect_eq (hhoused : image.Housed) (hs : image.Addressed s) (ht : image.Addressed t)
    (hvalue : s.value = t.value) (hends : ¬ image.EndsSection s) (hends' : ¬ image.EndsSection t) :
    s.sect = t.sect := by
  obtain ⟨home, hhome, -⟩ := hhoused.atHome s hs
  obtain ⟨home', hhome', -⟩ := hhoused.atHome t ht
  exact sect_eq_of_contains hhoused.apart hhome hhome' (hhoused.contains hs hhome hends)
    (hvalue ▸ hhoused.contains ht hhome' hends')

theorem Housed.bytesToSectionEnd_eq (hhoused : image.Housed) (hs : image.Addressed s)
    (hhome : image.home? s = some home) : image.bytesToSectionEnd s = home.limit - s.value := by
  simp only [bytesToSectionEnd, hhome, hhoused.le_limit hs hhome, if_true]

/-- The next symbol of the sorted table, if there is one, is at a higher address. -/
def Next (image : Image) (s : Symbol) (next? : Option (Nat × Symbol)) : Prop :=
  ∀ q ∈ next?, image.Addressed q.2 ∧ s.value < q.2.value

/-- Nothing comes after a label at the end of its section. -/
theorem Housed.extent_eq_zero (hhoused : image.Housed) (hs : image.Addressed s)
    (hnext : image.Next s next?) (hends : image.EndsSection s) : image.extent s next? = 0 := by
  obtain ⟨home, hhome, heq⟩ := hends
  have hend : image.bytesToSectionEnd s = 0 := by
    rw [hhoused.bytesToSectionEnd_eq hs hhome, heq, UInt64.sub_self]
  cases next? with
  | none => exact hend
  | some q =>
    obtain ⟨hq, hlt⟩ := hnext q rfl
    have hsect : q.2.sect ≠ s.sect := by
      intro hsect
      have hhome' : image.home? q.2 = some home := by
        rw [← hhome, home?, home?, hsect]
      exact UInt64.not_le.mpr hlt (heq ▸ hhoused.le_limit hq hhome')
    simpa [extent, hsect] using hend

theorem Housed.extent_ne_zero (hhoused : image.Housed) (hs : image.Addressed s)
    (hnext : image.Next s next?) (hends : ¬ image.EndsSection s) : image.extent s next? ≠ 0 := by
  obtain ⟨home, hhome, -⟩ := hhoused.atHome s hs
  have hdiff {a : UInt64} (hlt : s.value < a) : a - s.value ≠ 0 := by
    intro h
    have hlt' := UInt64.lt_iff_toNat_lt.mp hlt
    have h' := congrArg UInt64.toNat h
    rw [UInt64.toNat_sub_of_le _ _ (UInt64.le_of_lt hlt), UInt64.toNat_zero] at h'
    omega
  have hend : image.bytesToSectionEnd s ≠ 0 := by
    rw [hhoused.bytesToSectionEnd_eq hs hhome]
    exact hdiff (hhoused.lt_limit hs hhome hends)
  cases next? with
  | none => exact hend
  | some q =>
    simp only [extent]
    split
    · exact hdiff (hnext q rfl).2
    · exact hend

/-- The extent is the same with each symbol at the next address, unless a label at the end of a
section is among them. -/
theorem Housed.extent_next_eq (hhoused : image.Housed) (hapart : image.EndsApart)
    (hs : image.Addressed s) {q r : Nat × Symbol} (hq : image.Addressed q.2)
    (hr : image.Addressed r.2) (hvalue : q.2.value = r.2.value) (hqsect : q.2.sect = s.sect)
    (hrsect : r.2.sect ≠ s.sect) : image.extent s (some q) = image.extent s (some r) := by
  obtain ⟨home, hhome, -⟩ := hhoused.atHome s hs
  have hhome' : image.home? q.2 = some home := by
    rw [← hhome, home?, home?, hqsect]
  -- Both symbols have the same section if they are not at the end of theirs.
  have hends : image.EndsSection q.2 := by
    refine Classical.byContradiction fun hends => ?_
    have hends' : ¬ image.EndsSection r.2 := fun h => hends (hapart _ _ hr hq hvalue.symm h)
    exact hrsect ((hhoused.sect_eq hq hr hvalue hends hends').symm.trans hqsect)
  obtain ⟨home'', hhome'', heq⟩ := hends
  obtain rfl := Option.some.inj (hhome'.symm.trans hhome'')
  simp only [extent, hqsect, hrsect, if_true, if_false, hhoused.bytesToSectionEnd_eq hs hhome, heq]

/-- The extent does not depend on which of the aliases comes first, nor on which of the symbols at
the next address does. -/
theorem Housed.extent_eq (hhoused : image.Housed) (hapart : image.EndsApart)
    (hs : image.Addressed s) (ht : image.Addressed t) (hvalue : s.value = t.value)
    {next?' : Option (Nat × Symbol)} (hnext : image.Next s next?) (hnext' : image.Next t next?')
    (hsame : next?.map (fun q => q.2.value) = next?'.map fun q => q.2.value) :
    image.extent s next? = image.extent t next?' := by
  by_cases hends : image.EndsSection s
  · rw [hhoused.extent_eq_zero hs hnext hends,
      hhoused.extent_eq_zero ht hnext' (hapart s t hs ht hvalue hends)]
  · have hends' : ¬ image.EndsSection t := fun h => hends (hapart t s ht hs hvalue.symm h)
    have hsect := hhoused.sect_eq hs ht hvalue hends hends'
    have hcongr : image.extent t next?' = image.extent s next?' := by
      cases next?' <;> simp only [extent, bytesToSectionEnd, home?, hvalue, hsect]
    rw [hcongr]
    cases next? with
    | none =>
      obtain rfl : next?' = none := by simpa using hsame.symm
      rfl
    | some q =>
      obtain ⟨r, rfl, hvalue'⟩ : ∃ r, next?' = some r ∧ q.2.value = r.2.value := by
        obtain ⟨r, hr, hvalue'⟩ := Option.map_eq_some_iff.mp hsame.symm
        exact ⟨r, hr, hvalue'.symm⟩
      obtain ⟨hq, -⟩ := hnext q rfl
      obtain ⟨hr, -⟩ := hnext' r rfl
      by_cases hqsect : q.2.sect = s.sect
      · by_cases hrsect : r.2.sect = s.sect
        · simp only [extent, hqsect, hrsect, hvalue']
        · exact hhoused.extent_next_eq hapart hs hq hr hvalue' hqsect hrsect
      · by_cases hrsect : r.2.sect = s.sect
        · exact (hhoused.extent_next_eq hapart hs hr hq hvalue'.symm hrsect hqsect).symm
        · simp only [extent, hqsect, hrsect, if_false]

end Extents

/-! ## Reordered tables -/

/-- The image with another symbol table. -/
def withSymbols (image : Image) (symbols : List Symbol) : Image := { image with symbols }

section Reordered

variable {image : Image} {symbols : List Symbol}

theorem groupSorted_withSymbols (image : Image) (symbols : List Symbol)
    (sorted : List (Nat × Symbol)) :
    (image.withSymbols symbols).groupSorted sorted = image.groupSorted sorted := by
  induction sorted using groupSorted.induct with
  | case1 => simp [groupSorted]
  | case2 index s rest _ ih =>
    rw [groupSorted_cons, groupSorted_cons, ih]
    rfl

theorem addressed_withSymbols (hperm : symbols.Perm image.symbols) {s : Symbol} :
    (image.withSymbols symbols).Addressed s ↔ image.Addressed s :=
  and_congr_left fun _ => hperm.mem_iff

/-- Sorting leaves out the symbols that stand for no address, and nothing else. -/
theorem perm_addressedSymbols (image : Image) :
    (image.addressedSymbols.map Prod.snd).Perm
      (image.symbols.filter fun s => s.isSectionDefined) := by
  have hsnd : (image.symbols.mapIdx fun i s => (i, s)).map Prod.snd = image.symbols := by
    apply List.ext_getElem?
    intro k
    simp [Function.comp_def]
  have hfilter := List.filter_map (f := Prod.snd) (p := fun s : Symbol => s.isSectionDefined)
    (l := image.symbols.mapIdx fun i s => (i, s))
  rw [hsnd] at hfilter
  rw [hfilter]
  exact (List.mergeSort_perm _ _).map _

theorem perm_addressedSymbols_withSymbols (hperm : symbols.Perm image.symbols) :
    ((image.withSymbols symbols).addressedSymbols.map Prod.snd).Perm
      (image.addressedSymbols.map Prod.snd) :=
  ((image.withSymbols symbols).perm_addressedSymbols.trans (hperm.filter _)).trans
    image.perm_addressedSymbols.symm

theorem addressed_of_mem (hperm : symbols.Perm image.symbols) {p : Nat × Symbol}
    (hp : p ∈ (image.withSymbols symbols).addressedSymbols) : image.Addressed p.2 :=
  (addressed_withSymbols hperm).mp (mem_symbols_of_mem_addressed hp)

/-- Where a symbol leads a group, the next symbol is at a higher address. -/
theorem next_of_suffix (hperm : symbols.Perm image.symbols) {index : Nat} {s : Symbol}
    {rest : List (Nat × Symbol)}
    (hsuffix : ((index, s) :: rest) <:+ (image.withSymbols symbols).addressedSymbols) :
    image.Next s (rest.dropWhile fun p => p.2.value == s.value).head? := by
  intro q hq
  have hlater := List.mem_of_mem_head? hq
  have hrest : q ∈ rest := (List.dropWhile_suffix _).mem hlater
  have hsorted := (image.withSymbols symbols).ascending_addressedSymbols.sublist hsuffix.sublist
  exact ⟨addressed_of_mem hperm (hsuffix.mem (List.mem_cons_of_mem _ hrest)),
    lt_of_mem_later hsorted hlater⟩

end Reordered

/-! ## The first of the aliases -/

section First

variable {image : Image}

/-- A symbol leads a group if all that comes before it has another address. -/
theorem leadGroup_mem {index : Nat} {s : Symbol} {before rest : List (Nat × Symbol)}
    (hbefore : ∀ p ∈ before, p.2.value ≠ s.value) :
    image.leadGroup index s rest ∈ image.groupSorted (before ++ (index, s) :: rest) := by
  induction before using groupSorted.induct with
  | case1 =>
    rw [List.nil_append, groupSorted_cons]
    exact List.mem_cons_self
  | case2 j t later _ ih =>
    have hne : (s.value == t.value) = false := by
      have := hbefore (j, t) List.mem_cons_self
      simpa using Ne.symm this
    have hdrop : (later ++ (index, s) :: rest).dropWhile (fun p => p.2.value == t.value) =
        later.dropWhile (fun p => p.2.value == t.value) ++ (index, s) :: rest := by
      rw [List.dropWhile_append]
      split
      · rename_i hempty
        simp [List.isEmpty_iff.mp hempty, hne]
      · rfl
    rw [List.cons_append, groupSorted_cons, hdrop]
    refine List.mem_cons_of_mem _ (ih fun p hp => hbefore p (List.mem_cons_of_mem _ ?_))
    exact (List.dropWhile_suffix _).mem hp

/-- The first symbol of the table leads the group at its address. -/
theorem exists_lead_of_first {s : Symbol} {others : List Symbol}
    (hsymbols : image.symbols = s :: others) (hdef : s.isSectionDefined = true) :
    ∃ index rest, ((index, s) :: rest) <:+ image.addressedSymbols ∧
      image.leadGroup index s rest ∈ image.groupSorted image.addressedSymbols := by
  obtain ⟨before, rest, hsorted, -, hbefore⟩ := List.mergeSort_cons value_le_trans value_le_total
    (0, s) ((others.mapIdx fun i t => (i + 1, t)).filter fun p => p.2.isSectionDefined)
  have haddressed : image.addressedSymbols = before ++ (0, s) :: rest := by
    rw [← hsorted, addressedSymbols, hsymbols, List.mapIdx_cons]
    simp only [List.filter_cons, hdef, if_true]
  refine ⟨0, rest, haddressed ▸ List.suffix_append _ _, ?_⟩
  rw [haddressed]
  refine leadGroup_mem fun p hp heq => ?_
  have hlater := hbefore p hp
  simp [heq] at hlater

end First

/-! ## Aliases -/

/-- The aliases of a group are all symbols at its address. -/
theorem groupSorted_aliases {image : Image} {sorted : List (Nat × Symbol)}
    (hsorted : Ascending sorted) {g : SymbolGroup} (hg : g ∈ image.groupSorted sorted) :
    g.aliases = (sorted.filter fun p => p.2.value == g.address).map Prod.fst := by
  induction sorted using groupSorted.induct with
  | case1 => simp [groupSorted] at hg
  | case2 index s rest _ ih =>
    obtain ⟨hsame, hlater⟩ := aliases_later_eq hsorted
    rw [groupSorted_cons] at hg
    rcases List.mem_cons.mp hg with rfl | hg
    · simp [leadGroup, hsame]
    · obtain ⟨q, hq, hvalue⟩ := groupSorted_address hg
      have hne : s.value ≠ g.address := UInt64.ne_of_lt (hvalue ▸ lt_of_mem_later hsorted hq)
      have haliases : g.aliases = ((rest.dropWhile fun p => p.2.value == s.value).filter
          fun p => p.2.value == g.address).map Prod.fst := ih (ascending_later hsorted _) hg
      rw [haliases, List.filter_cons, if_neg (by simpa using hne), hlater, List.filter_filter]
      refine congrArg _ (List.filter_congr fun p _ => ?_)
      by_cases heq : p.2.value = g.address
      · simpa [heq] using Ne.symm hne
      · simp [heq]

theorem filterMap_fst {symbols : List Symbol} {numbered : List (Nat × Symbol)}
    (h : ∀ p ∈ numbered, symbols[p.1]? = some p.2) :
    ((numbered.map Prod.fst).filterMap fun i => symbols[i]?) = numbered.map Prod.snd := by
  induction numbered with
  | nil => rfl
  | cons p rest ih =>
    have hp := h p List.mem_cons_self
    simpa [hp] using ih fun q hq => h q (List.mem_cons_of_mem _ hq)

end Image

namespace SymbolIndex

/-! ## What the order cannot change -/

/-- Address and size of each group. -/
def extents (index : SymbolIndex) : List (UInt64 × UInt64) :=
  index.groups.map fun g => (g.address, g.size)

/-- Address of each group, and the relocations that are bound to it. -/
def bindings (index : SymbolIndex) : List (UInt64 × List BoundReloc) :=
  index.groups.map fun g => (g.address, g.relocs)

/-- The names of the aliases of a group. -/
def aliasNames (index : SymbolIndex) (g : SymbolGroup) : List String :=
  (g.aliases.filterMap fun i => index.image.symbols[i]?).map Symbol.name

section Reordered

variable {image : Image} {symbols : List Symbol}

theorem map_build {α : Type} {f : SymbolGroup → α} (hf : ∀ g, f g.bare = f g) (image : Image) :
    (build image).groups.map f = (image.groupSorted image.addressedSymbols).map f := by
  rw [← map_bare_build, List.map_map]
  simp only [Function.comp_def, hf]

theorem map_address_withSymbols (hperm : symbols.Perm image.symbols) :
    (build (image.withSymbols symbols)).groups.map SymbolGroup.address =
      (build image).groups.map SymbolGroup.address := by
  rw [map_build fun _ => rfl, map_build fun _ => rfl, Image.groupSorted_withSymbols]
  exact image.map_groupSorted_eq _ (image.withSymbols symbols).ascending_addressedSymbols
    image.ascending_addressedSymbols (Image.perm_addressedSymbols_withSymbols hperm)
    fun _ _ hvalue _ => hvalue

/-- Where labels at the end of a section are apart from other symbols, extents stay the same. -/
theorem extents_withSymbols (hhoused : image.Housed) (hapart : image.EndsApart)
    (hperm : symbols.Perm image.symbols) :
    (build (image.withSymbols symbols)).extents = (build image).extents := by
  unfold extents
  rw [map_build fun _ => rfl, map_build fun _ => rfl, Image.groupSorted_withSymbols]
  have hsorted := (image.withSymbols symbols).ascending_addressedSymbols
  have hsorted' := image.ascending_addressedSymbols
  refine image.map_groupSorted_eq _ hsorted hsorted'
    (Image.perm_addressedSymbols_withSymbols hperm) ?_
  intro i s rest i' s' rest' hsuffix hsuffix' hvalue hlater
  have hs := Image.addressed_of_mem hperm (hsuffix.mem List.mem_cons_self)
  have hs' := Image.mem_symbols_of_mem_addressed (hsuffix'.mem List.mem_cons_self)
  have hnext := Image.next_of_suffix hperm hsuffix
  have hnext' := Image.next_of_suffix (.refl image.symbols) hsuffix'
  have hsame := Image.head?_value_eq
    (Image.ascending_later (hsorted.sublist hsuffix.sublist) fun p => p.2.value == s.value)
    (Image.ascending_later (hsorted'.sublist hsuffix'.sublist) fun p => p.2.value == s'.value)
    hlater
  exact Prod.ext hvalue (hhoused.extent_eq hapart hs hs' hvalue hnext hnext' hsame)

theorem startedBy_eq {groups groups' : List SymbolGroup}
    (h : groups.map (fun g => (g.address, g.size)) = groups'.map fun g => (g.address, g.size))
    (a : UInt64) : startedBy groups a = startedBy groups' a := by
  have hcount (groups : List SymbolGroup) : startedBy groups a =
      ((groups.map fun g => (g.address, g.size)).takeWhile fun p => p.1 ≤ a).length := by
    rw [startedBy, List.takeWhile_map, List.length_map]
    rfl
  rw [hcount, hcount, h]

theorem holds_eq {g g' : SymbolGroup} (haddress : g.address = g'.address)
    (hsize : g.size = g'.size) (a : UInt64) (width : Nat) : g.holds a width = g'.holds a width := by
  rw [SymbolGroup.holds, SymbolGroup.contains, SymbolGroup.limit, haddress, hsize]
  rfl

/-- Where a relocation is bound depends on addresses and sizes only. -/
theorem holder?_eq {groups groups' : List SymbolGroup}
    (h : groups.map (fun g => (g.address, g.size)) = groups'.map fun g => (g.address, g.size))
    (home : Section) (b : BoundReloc) : holder? groups home b = holder? groups' home b := by
  have hcandidate (a : UInt64) : candidate? groups a = candidate? groups' a := by
    rw [candidate?, candidate?, startedBy_eq h]
  unfold holder?
  rw [hcandidate]
  refine congrArg (fun p => Option.filter p (candidate? groups' _)) (funext fun k => ?_)
  have hk := congrArg (·[k]?) h
  simp only [List.getElem?_map] at hk
  cases hg : groups[k]? with
  | none =>
    have hnone : groups'[k]? = none := by simpa [hg] using hk.symm
    rw [hnone]
  | some g =>
    obtain ⟨g', hg', heq⟩ := Option.map_eq_some_iff.mp (hk.symm.trans (by rw [hg]; rfl))
    obtain ⟨haddress, hsize⟩ := Prod.mk.inj heq
    rw [hg']
    exact holds_eq haddress.symm hsize.symm _ _

theorem bindings_build (image : Image) :
    (build image).bindings =
      ((build image).groups.map SymbolGroup.address).mapIdx fun k a => (a, boundTo image k) := by
  apply List.ext_getElem?
  intro k
  simp only [bindings, List.getElem?_map, List.getElem?_mapIdx]
  cases hk : (build image).groups[k]? with
  | none => rfl
  | some g => simp [build_relocs hk]

/-- The same extents bind the same relocations. -/
theorem bindings_withSymbols (hperm : symbols.Perm image.symbols)
    (hextents : (build (image.withSymbols symbols)).extents = (build image).extents) :
    (build (image.withSymbols symbols)).bindings = (build image).bindings := by
  have hgroups := hextents
  unfold extents at hgroups
  rw [map_build fun _ => rfl, map_build fun _ => rfl] at hgroups
  have hplace : place (image.withSymbols symbols) = place image := by
    funext e
    exact holder?_eq hgroups e.1 e.2
  have hbound : boundTo (image.withSymbols symbols) = boundTo image := by
    funext k
    simp only [boundTo, hplace]
    rfl
  rw [bindings_build, bindings_build, map_address_withSymbols hperm, hbound]

/-- The names of a group are those of all symbols at its address. -/
theorem perm_aliasNames {g : SymbolGroup} (hg : g ∈ (build image).groups) :
    ((build image).aliasNames g).Perm
      (((image.symbols.filter fun s => s.isSectionDefined).filter
        fun s => s.value == g.address).map Symbol.name) := by
  have haliases : g.bare.aliases =
      (image.addressedSymbols.filter fun p => p.2.value == g.bare.address).map Prod.fst :=
    Image.groupSorted_aliases image.ascending_addressedSymbols (bare_mem_of_mem_build hg)
  have hnumbered : ∀ p ∈ image.addressedSymbols.filter fun p => p.2.value == g.address,
      image.symbols[p.1]? = some p.2 :=
    fun p hp => (Image.mem_addressedSymbols.mp (List.mem_filter.mp hp).1).1
  have hnames : (build image).aliasNames g =
      ((image.addressedSymbols.map Prod.snd).filter fun s => s.value == g.address).map
        Symbol.name := by
    rw [List.filter_map]
    exact congrArg _ (haliases ▸ Image.filterMap_fst hnumbered)
  rw [hnames]
  exact (image.perm_addressedSymbols.filter _).map _

/-- At each address the same names stand, in every order of the symbols. -/
theorem perm_aliasNames_withSymbols (hperm : symbols.Perm image.symbols) {g g' : SymbolGroup}
    (hg : g ∈ (build image).groups) (hg' : g' ∈ (build (image.withSymbols symbols)).groups)
    (haddress : g'.address = g.address) :
    ((build (image.withSymbols symbols)).aliasNames g').Perm ((build image).aliasNames g) := by
  have hnames := perm_aliasNames hg'
  rw [haddress] at hnames
  exact (hnames.trans (((hperm.filter _).filter _).map _)).trans (perm_aliasNames hg).symm

/-! ## What the order can change -/

theorem eq_of_address_eq {g h : SymbolGroup} (hg : g ∈ (build image).groups)
    (hh : h ∈ (build image).groups) (haddress : g.address = h.address) : g = h := by
  obtain ⟨i, hi, rfl⟩ := List.getElem_of_mem hg
  obtain ⟨j, hj, rfl⟩ := List.getElem_of_mem hh
  have hsorted := List.pairwise_iff_getElem.mp (pairwise_build image)
  rcases Nat.lt_trichotomy i j with hij | rfl | hji
  · exact absurd haddress (UInt64.ne_of_lt (hsorted i j hi hj hij))
  · rfl
  · exact absurd haddress.symm (UInt64.ne_of_lt (hsorted j i hj hi hji))

/-- In some order, a symbol comes first and gives its group the extent. -/
theorem exists_order_of_addressed {s : Symbol} (hs : image.Addressed s) :
    ∃ symbols next?, symbols.Perm image.symbols ∧ image.Next s next? ∧
      (s.value, image.extent s next?) ∈ (build (image.withSymbols symbols)).extents := by
  obtain ⟨before, after, hsplit⟩ := List.append_of_mem hs.1
  have hperm : (s :: (before ++ after)).Perm image.symbols := hsplit ▸ List.perm_middle.symm
  have hfirst : (image.withSymbols (s :: (before ++ after))).symbols = s :: (before ++ after) := rfl
  obtain ⟨index, rest, hsuffix, hlead⟩ := Image.exists_lead_of_first hfirst hs.2
  refine ⟨_, _, hperm, Image.next_of_suffix hperm hsuffix, ?_⟩
  rw [extents, map_build fun _ => rfl]
  exact List.mem_map.mpr ⟨_, hlead, rfl⟩

/-- If extents are the same in every order, labels at the end of a section are apart from other
symbols. -/
theorem endsApart_of_extents (hhoused : image.Housed)
    (hsame : ∀ symbols, symbols.Perm image.symbols →
      (build (image.withSymbols symbols)).extents = (build image).extents) : image.EndsApart := by
  intro s t hs ht hvalue hends
  refine Classical.byContradiction fun hends' => ?_
  obtain ⟨symbols, next?, hperm, hnext, hextent⟩ := exists_order_of_addressed hs
  obtain ⟨symbols', next?', hperm', hnext', hextent'⟩ := exists_order_of_addressed ht
  rw [hsame _ hperm] at hextent
  rw [hsame _ hperm', ← hvalue] at hextent'
  obtain ⟨g, hg, heq⟩ := List.mem_map.mp hextent
  obtain ⟨g', hg', heq'⟩ := List.mem_map.mp hextent'
  obtain ⟨haddress, hsize⟩ := Prod.mk.inj heq
  obtain ⟨haddress', hsize'⟩ := Prod.mk.inj heq'
  obtain rfl := eq_of_address_eq hg hg' (haddress.trans haddress'.symm)
  have hempty := hhoused.extent_eq_zero hs hnext hends
  exact hhoused.extent_ne_zero ht hnext' hends' (hsize'.symm.trans (hsize.trans hempty))

/-- In every order of the symbols the groups have the same addresses, with the same names at each.
Their sizes and the relocations bound to them are the same in every order if and only if no label at
the end of a section shares its address with a symbol that is not at the end of its own. -/
theorem order_irrelevant_iff_endsApart (hhoused : image.Housed) :
    (∀ symbols, symbols.Perm image.symbols →
      (build (image.withSymbols symbols)).groups.map SymbolGroup.address =
        (build image).groups.map SymbolGroup.address ∧
      ∀ g ∈ (build image).groups, ∀ g' ∈ (build (image.withSymbols symbols)).groups,
        g'.address = g.address →
          ((build (image.withSymbols symbols)).aliasNames g').Perm ((build image).aliasNames g)) ∧
    ((∀ symbols, symbols.Perm image.symbols →
      (build (image.withSymbols symbols)).extents = (build image).extents ∧
      (build (image.withSymbols symbols)).bindings = (build image).bindings) ↔
        image.EndsApart) := by
  refine ⟨fun symbols hperm => ⟨map_address_withSymbols hperm, ?_⟩, ?_, ?_⟩
  · intro g hg g' hg' haddress
    exact perm_aliasNames_withSymbols hperm hg hg' haddress
  · intro hsame
    exact endsApart_of_extents hhoused fun symbols hperm => (hsame symbols hperm).1
  · intro hapart symbols hperm
    have hextents := extents_withSymbols hhoused hapart hperm
    exact ⟨hextents, bindings_withSymbols hperm hextents⟩

/-- Eight bytes of code and eight bytes of data right after it, with a relocation of the data. -/
def touching (symbols : List Symbol) : Image :=
  Image.ofParts 0x1000007 3 1 0 .little
    [⟨1, "__TEXT", "__text", 0x1000, 8, 0, 0, 0, 0, 0x80000000,
      [0x90, 0x90, 0x90, 0x90, 0x90, 0x90, 0x90, 0xc3], []⟩,
     ⟨2, "__DATA", "__data", 0x1008, 8, 0, 0, 0, 0, 0, [0, 0, 0, 0, 0, 0, 0, 0],
      [⟨0, 1, 0, 3, false, false, false⟩]⟩]
    symbols

theorem housed_touching {symbols : List Symbol}
    (h : ∀ s ∈ symbols, (s.sect = 1 ∧ 0x1000 ≤ s.value.toNat ∧ s.value.toNat ≤ 0x1008) ∨
      (s.sect = 2 ∧ 0x1008 ≤ s.value.toNat ∧ s.value.toNat ≤ 0x1010)) :
    (touching symbols).Housed where
  apart := by
    refine List.pairwise_pair.mpr fun a hboth => ?_
    obtain ⟨-, hlt⟩ := Section.contains_iff.mp hboth.1
    obtain ⟨hle, -⟩ := Section.contains_iff.mp hboth.2
    exact absurd (Nat.lt_of_le_of_lt hle hlt) (by decide)
  atHome := by
    rintro s ⟨hs, -⟩
    rcases h s hs with ⟨hsect, hvalue⟩ | ⟨hsect, hvalue⟩
    all_goals
      refine ⟨_, by rw [Image.home?, hsect]; rfl, ?_⟩
      exact hvalue

def codeLabel : Symbol := ⟨"_etext", 0xf, 1, 0, 0x1008⟩

def dataSymbol : Symbol := ⟨"_value", 0xf, 2, 0, 0x1008⟩

/-- A label at the end of the code and the first symbol of the data share an address. If the label
comes first, the group is empty and the data's relocation is bound nowhere. -/
theorem order_changes_extents :
    (touching [codeLabel, dataSymbol]).Housed ∧
      [dataSymbol, codeLabel].Perm [codeLabel, dataSymbol] ∧
      (build (touching [codeLabel, dataSymbol])).extents = [(0x1008, 0)] ∧
      (build (touching [dataSymbol, codeLabel])).extents = [(0x1008, 8)] ∧
      (build (touching [codeLabel, dataSymbol])).bindings = [(0x1008, [])] ∧
      (build (touching [dataSymbol, codeLabel])).bindings =
        [(0x1008, [⟨⟨0, 1, 0, 3, false, false, false⟩, 2, 0⟩])] := by
  have hlabel : (touching [codeLabel, dataSymbol]).groupSorted
      (touching [codeLabel, dataSymbol]).addressedSymbols = [⟨0x1008, 0, [0, 1], []⟩] :=
    Image.groupSorted_addressedSymbols (by decide) (by decide)
  have hdata : (touching [dataSymbol, codeLabel]).groupSorted
      (touching [dataSymbol, codeLabel]).addressedSymbols = [⟨0x1008, 8, [0, 1], []⟩] :=
    Image.groupSorted_addressedSymbols (by decide) (by decide)
  refine ⟨housed_touching (by decide), .swap _ _ _, ?_, ?_, ?_, ?_⟩
  · rw [build, hlabel]
    rfl
  · rw [build, hdata]
    rfl
  · rw [build, hlabel]
    decide
  · rw [build, hdata]
    decide

/-- Labels and symbols of which only the last one is at the end of its section. -/
def markedImage : Image :=
  touching [⟨"_main", 0xf, 1, 0, 0x1000⟩, dataSymbol, ⟨"_alias", 0xe, 2, 0, 0x1008⟩,
    ⟨"_end", 0xf, 2, 0, 0x1010⟩]

theorem marked_order_irrelevant_iff_endsApart :
    markedImage.Housed ∧ markedImage.EndsApart ∧ ∀ symbols, symbols.Perm markedImage.symbols →
      (build (markedImage.withSymbols symbols)).extents =
        [(0x1000, 8), (0x1008, 8), (0x1010, 0)] := by
  have hhoused : markedImage.Housed := housed_touching (by decide)
  have hpairs : ∀ s ∈ markedImage.symbols, ∀ t ∈ markedImage.symbols, s.value = t.value →
      markedImage.EndsSection s → markedImage.EndsSection t := by decide
  have hapart : markedImage.EndsApart := fun s t hs ht => hpairs s hs.1 t ht.1
  obtain ⟨-, hsame⟩ := order_irrelevant_iff_endsApart hhoused
  refine ⟨hhoused, hapart, fun symbols hperm => ?_⟩
  rw [(hsame.mpr hapart symbols hperm).1]
  have hgroups : markedImage.groupSorted markedImage.addressedSymbols =
      [⟨0x1000, 8, [0], []⟩, ⟨0x1008, 8, [1, 2], []⟩, ⟨0x1010, 0, [3], []⟩] :=
    Image.groupSorted_addressedSymbols (by decide) (by decide)
  rw [build, hgroups]
  rfl

end Reordered

end SymbolIndex

end MachInspect
