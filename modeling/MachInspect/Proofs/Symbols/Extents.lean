-- SUMMARY: A symbol extends to the next symbol of its section, or to the end of the section.
import MachInspect.Proofs.Symbols.Members

/-!
# Extents

Grouping looks only at the next group in order of address, whatever section it is in, and at the
first of the symbols at an address. In an image whose symbols are inside their sections this is
enough: the symbols of one address are of one section, and if the next group is of another section,
no symbol of the same section follows.
-/
namespace MachInspect

namespace Image

/-- No two sections share an address, and every symbol that stands for an address in a section
stands for one inside the section it declares. -/
structure Enclosed (image : Image) : Prop where
  apart : image.sections.Pairwise fun s t => ∀ a, ¬ (s.contains a = true ∧ t.contains a = true)
  inside : ∀ s, image.Addressed s → ∃ home, image.home? s = some home ∧
    home.contains s.value = true

/-- The addresses in the section of `s` that symbols after it stand for. -/
def laterInSection (image : Image) (s : Symbol) : List UInt64 :=
  (image.symbols.filter fun t =>
    t.isSectionDefined && t.sect == s.sect && s.value < t.value).map Symbol.value

/-- The least address after `s` that a symbol of its section stands for, or the end of the section
if there is none. -/
def extentEnd (image : Image) (home : Section) (s : Symbol) : UInt64 :=
  (image.laterInSection s).min?.getD home.limit

section Ends

variable {image : Image} {s : Symbol} {home : Section}

theorem mem_laterInSection {a : UInt64} : a ∈ image.laterInSection s ↔
    ∃ t, image.Addressed t ∧ t.sect = s.sect ∧ s.value < t.value ∧ t.value = a := by
  simp [laterInSection, Addressed, and_assoc]

theorem extentEnd_congr {t : Symbol} (hvalue : s.value = t.value) (hsect : s.sect = t.sect) :
    image.extentEnd home s = image.extentEnd home t := by
  rw [extentEnd, extentEnd, laterInSection, laterInSection, hvalue, hsect]

theorem extentEnd_eq_of_least {a : UInt64} (ha : a ∈ image.laterInSection s)
    (hleast : ∀ b ∈ image.laterInSection s, a ≤ b) : image.extentEnd home s = a := by
  rw [extentEnd, List.min?_eq_some_iff.mpr ⟨ha, hleast⟩, Option.getD_some]

theorem extentEnd_eq_limit (h : ∀ a, a ∉ image.laterInSection s) :
    image.extentEnd home s = home.limit := by
  rw [extentEnd, List.eq_nil_iff_forall_not_mem.mpr h, List.min?_nil, Option.getD_none]

end Ends

/-! ## Later symbols -/

/-- Every symbol at a higher address comes after the aliases of the one that leads a group. -/
theorem mem_later_of_lt {index : Nat} {s : Symbol} {rest symbols : List (Nat × Symbol)}
    (hsorted : Ascending symbols) (hsuffix : ((index, s) :: rest) <:+ symbols)
    {p : Nat × Symbol} (hp : p ∈ symbols) (hlt : s.value < p.2.value) :
    p ∈ rest.dropWhile fun q => q.2.value == s.value := by
  obtain ⟨before, rfl⟩ := hsuffix
  rcases List.mem_append.mp hp with hbefore | hafter
  · have hle := (List.pairwise_append.mp hsorted).2.2 p hbefore (index, s) List.mem_cons_self
    exact absurd hle (UInt64.not_le.mpr hlt)
  · rcases List.mem_cons.mp hafter with rfl | hrest
    · exact absurd hlt (UInt64.lt_irrefl _)
    · rw [← List.takeWhile_append_dropWhile (p := fun q => q.2.value == s.value) (l := rest)]
        at hrest
      refine (List.mem_append.mp hrest).resolve_left fun hsame => ?_
      have hvalue := List.all_eq_true.mp (List.all_takeWhile (l := rest)) p hsame
      exact UInt64.ne_of_lt hlt (eq_of_beq hvalue).symm

theorem exists_addressed_of_lt {image : Image} {index : Nat} {s t : Symbol}
    {rest : List (Nat × Symbol)} (hsuffix : ((index, s) :: rest) <:+ image.addressedSymbols)
    (ht : image.Addressed t) (hlt : s.value < t.value) :
    ∃ i, (i, t) ∈ rest.dropWhile fun q => q.2.value == s.value := by
  obtain ⟨i, hi, rfl⟩ := List.getElem_of_mem ht.1
  refine ⟨i, mem_later_of_lt image.ascending_addressedSymbols hsuffix ?_ hlt⟩
  exact mem_addressedSymbols.mpr ⟨List.getElem?_eq_getElem hi, ht.2⟩

/-! ## Enclosed symbols -/

section Enclosed

variable {image : Image} {s t : Symbol} {home : Section}

theorem Enclosed.wellPlaced (henclosed : image.Enclosed) : image.WellPlaced where
  apart := henclosed.apart
  atHome := by
    intro s hs hdef
    obtain ⟨home, hhome, hcontains⟩ := henclosed.inside s ⟨hs, hdef⟩
    obtain ⟨hle, hlt⟩ := Section.contains_iff.mp hcontains
    refine ⟨home, hhome, hle, ?_⟩
    simp only [Section.limit, toNat_saturatingAdd] at hlt
    omega

theorem Enclosed.contains (henclosed : image.Enclosed) (hs : image.Addressed s)
    (hhome : image.home? s = some home) : home.contains s.value = true := by
  obtain ⟨home', hhome', hcontains⟩ := henclosed.inside s hs
  exact Option.some.inj (hhome'.symm.trans hhome) ▸ hcontains

theorem Enclosed.lt_limit (henclosed : image.Enclosed) (hs : image.Addressed s)
    (hhome : image.home? s = some home) : s.value < home.limit :=
  UInt64.lt_iff_toNat_lt.mpr (Section.contains_iff.mp (henclosed.contains hs hhome)).2

/-- Symbols of one address are of one section. -/
theorem Enclosed.sect_eq (henclosed : image.Enclosed) (hs : image.Addressed s)
    (ht : image.Addressed t) (hvalue : s.value = t.value) : s.sect = t.sect := by
  obtain ⟨home, hhome, hcontains⟩ := henclosed.inside s hs
  obtain ⟨home', hhome', hcontains'⟩ := henclosed.inside t ht
  exact sect_eq_of_contains henclosed.apart hhome hhome' hcontains (hvalue ▸ hcontains')

/-- The end lies after the symbol, and not after the end of the section. -/
theorem Enclosed.extentEnd_bounds (henclosed : image.Enclosed) (hs : image.Addressed s)
    (hhome : image.home? s = some home) :
    s.value < image.extentEnd home s ∧ image.extentEnd home s ≤ home.limit := by
  unfold extentEnd
  cases hmin : (image.laterInSection s).min? with
  | none => exact ⟨henclosed.lt_limit hs hhome, UInt64.le_refl _⟩
  | some a =>
    obtain ⟨t, ht, hsect, hlt, rfl⟩ := mem_laterInSection.mp (List.min?_eq_some_iff.mp hmin).1
    have hhome' : image.home? t = some home := by
      rw [← hhome, home?, home?, hsect]
    exact ⟨hlt, UInt64.le_of_lt (henclosed.lt_limit ht hhome')⟩

/-- The group that a symbol leads ends at the next symbol of the section, though grouping looks at
the next symbol of any section. -/
theorem Enclosed.extent_eq (henclosed : image.Enclosed) {index : Nat} {rest : List (Nat × Symbol)}
    (hsuffix : ((index, s) :: rest) <:+ image.addressedSymbols)
    (hhome : image.home? s = some home) :
    image.extent s (rest.dropWhile fun p => p.2.value == s.value).head? =
      image.extentEnd home s - s.value := by
  have hsorted := image.ascending_addressedSymbols.sublist hsuffix.sublist
  have hs : image.Addressed s := mem_symbols_of_mem_addressed (hsuffix.mem List.mem_cons_self)
  have hend : image.bytesToSectionEnd s = home.limit - s.value := by
    simp only [bytesToSectionEnd, hhome, UInt64.le_of_lt (henclosed.lt_limit hs hhome), if_true]
  cases hlater : rest.dropWhile (fun p => p.2.value == s.value) with
  | nil =>
    have hlast : image.extentEnd home s = home.limit := by
      refine extentEnd_eq_limit fun a ha => ?_
      obtain ⟨t, ht, -, hlt, -⟩ := mem_laterInSection.mp ha
      obtain ⟨i, hi⟩ := exists_addressed_of_lt hsuffix ht hlt
      simp [hlater] at hi
    rw [hlast, ← hend]
    rfl
  | cons next later =>
    have hnext : next ∈ rest.dropWhile fun p => p.2.value == s.value :=
      hlater ▸ List.mem_cons_self
    have hq : image.Addressed next.2 := mem_symbols_of_mem_addressed
      (hsuffix.mem (List.mem_cons_of_mem _ ((List.dropWhile_suffix _).mem hnext)))
    have hlt : s.value < next.2.value := lt_of_mem_later hsorted hnext
    have hleast : ∀ t, image.Addressed t → s.value < t.value → next.2.value ≤ t.value := by
      intro t ht hlt
      obtain ⟨i, hi⟩ := exists_addressed_of_lt hsuffix ht hlt
      rw [hlater] at hi
      exact head_le_of_mem (hlater ▸ ascending_later hsorted _) (List.mem_map.mpr ⟨_, hi, rfl⟩)
    simp only [List.head?_cons, extent]
    split
    · rename_i hsect
      rw [extentEnd_eq_of_least (mem_laterInSection.mpr ⟨_, hq, hsect, hlt, rfl⟩)]
      intro b hb
      obtain ⟨t, ht, -, hlt', rfl⟩ := mem_laterInSection.mp hb
      exact hleast t ht hlt'
    · rename_i hsect
      -- The next symbol is past the end of the section, so no symbol of the section follows.
      obtain ⟨home', hhome', hcontains⟩ := henclosed.wellPlaced.atHome s hs.1 hs.2
      obtain rfl := Option.some.inj (hhome'.symm.trans hhome)
      have hpast := henclosed.wellPlaced.limit_le hq.1 hq.2 hhome hcontains hlt hsect
      rw [hend, extentEnd_eq_limit]
      intro a ha
      obtain ⟨t, ht, htsect, hlt', -⟩ := mem_laterInSection.mp ha
      have hthome : image.home? t = some home' := by
        rw [← hhome, home?, home?, htsect]
      have hle := UInt64.le_trans hpast (hleast t ht hlt')
      exact UInt64.not_le.mpr (henclosed.lt_limit ht hthome) hle

end Enclosed

end Image

namespace SymbolIndex

variable {image : Image} {g : SymbolGroup} {s : Symbol} {i : Nat}

/-! ## The extent of a symbol -/

/-- The extent of the group is that of the symbol `s` of the section `home`: from the symbol to the
next one of the section, or to the end of the section. -/
structure ExtentOf (image : Image) (home : Section) (s : Symbol) (g : SymbolGroup) : Prop where
  address_eq : g.address = s.value
  end_eq : g.address.toNat + g.size.toNat = (image.extentEnd home s).toNat
  size_pos : 0 < g.size.toNat
  inside : ∀ a, g.Spans a → home.contains a = true

/-- The first symbol of a group gives the extent; it has the section of all the others. -/
theorem size_eq_of_mem {home : Section} (henclosed : image.Enclosed)
    (hg : g ∈ (build image).groups) (hs : image.Addressed s) (hvalue : s.value = g.address)
    (hhome : image.home? s = some home) : g.size = image.extentEnd home s - s.value := by
  obtain ⟨index, lead, rest, hsuffix, hlead⟩ :=
    Image.exists_lead_of_mem_groupSorted (bare_mem_of_mem_build hg)
  have haddress : g.address = lead.value := congrArg SymbolGroup.address hlead
  have hsize : g.size = image.extent lead _ := congrArg SymbolGroup.size hlead
  have haddressed : image.Addressed lead :=
    Image.mem_symbols_of_mem_addressed (hsuffix.mem List.mem_cons_self)
  have hsame : s.value = lead.value := hvalue.trans haddress
  have hsect := henclosed.sect_eq hs haddressed hsame
  have hhome' : image.home? lead = some home := by
    rw [← hhome, Image.home?, Image.home?, hsect]
  rw [hsize, henclosed.extent_eq hsuffix hhome', Image.extentEnd_congr hsame hsect, hsame]

theorem extentOf_of_mem (henclosed : image.Enclosed) (hg : g ∈ (build image).groups)
    (hi : i ∈ g.aliases) (hs : image.symbols[i]? = some s) :
    ∃ home, image.home? s = some home ∧ ExtentOf image home s g := by
  obtain ⟨s', hs', hdef, hvalue⟩ := exists_symbol_of_alias hg hi
  obtain rfl := Option.some.inj (hs'.symm.trans hs)
  have haddressed : image.Addressed s' := ⟨List.mem_of_getElem? hs, hdef⟩
  obtain ⟨home, hhome, hcontains⟩ := henclosed.inside s' haddressed
  obtain ⟨hafter, hbefore⟩ := henclosed.extentEnd_bounds haddressed hhome
  have hafter' := UInt64.lt_iff_toNat_lt.mp hafter
  have hbefore' := UInt64.le_iff_toNat_le.mp hbefore
  have hsize : g.size.toNat = (image.extentEnd home s').toNat - s'.value.toNat := by
    rw [size_eq_of_mem henclosed hg haddressed hvalue hhome,
      UInt64.toNat_sub_of_le _ _ (UInt64.le_of_lt hafter)]
  have hend : g.address.toNat + g.size.toNat = (image.extentEnd home s').toNat := by
    rw [← hvalue, hsize]
    omega
  refine ⟨home, hhome, hvalue.symm, hend, by omega, fun a ⟨hle, hlt⟩ => ?_⟩
  have hstart := (Section.contains_iff.mp hcontains).1
  rw [hvalue] at hstart
  exact Section.contains_iff.mpr ⟨by omega, by omega⟩

/-- In an image whose sections do not overlap and whose symbols are inside their sections, every
symbol that stands for an address in a section has a group, which extends to the next symbol of that
section, or to the end of the section if there is none. So no extent is empty or leaves its section,
and no two extents share an address. -/
theorem extents_end_at_next_symbol (henclosed : image.Enclosed) :
    (∀ (i : Nat) (s : Symbol), image.symbols[i]? = some s → s.isSectionDefined = true →
      ∃ home g, image.home? s = some home ∧ (build image).groupOf? i = some g ∧
        ExtentOf image home s g) ∧
    (∀ g ∈ (build image).groups, 0 < g.size.toNat) ∧
    (build image).groups.Pairwise fun g h => ∀ a, ¬ (g.Spans a ∧ h.Spans a) := by
  refine ⟨fun i s hs hdef => ?_, fun g hg => ?_, ?_⟩
  · obtain ⟨g, hg, hi⟩ := mem_aliases_iff_defines.mpr (Image.defines_iff.mpr ⟨s, hs, hdef⟩)
    obtain ⟨home, hhome, hextent⟩ := extentOf_of_mem henclosed hg hi hs
    exact ⟨home, g, hhome, groupOf?_build_eq_some_iff.mpr ⟨hg, hi⟩, hextent⟩
  · obtain ⟨index, lead, rest, -, hlead⟩ :=
      Image.exists_lead_of_mem_groupSorted (bare_mem_of_mem_build hg)
    have hi : index ∈ g.bare.aliases := by
      rw [hlead]
      exact List.mem_cons_self
    obtain ⟨s, hs, -⟩ := exists_symbol_of_alias hg hi
    obtain ⟨home, -, hextent⟩ := extentOf_of_mem henclosed hg hi hs
    exact hextent.size_pos
  · refine henclosed.wellPlaced.pairwise_build.imp fun hle a hboth => ?_
    have hlt := hboth.1.2
    have hge := hboth.2.1
    omega

/-- Code with two names at its start, and data whose last bytes have no address. -/
def highImage : Image :=
  Image.ofParts 0x1000007 3 1 0 .little
    [⟨1, "__TEXT", "__text", 0x1000, 8, 0, 0, 0, 0, 0x80000000, [], []⟩,
     ⟨2, "__DATA", "__data", 0xfffffffffffffff0, 0x20, 0, 0, 0, 0, 0, [], []⟩]
    [⟨"_last", 0xf, 2, 0, 0xfffffffffffffff8⟩, ⟨"_main", 0xf, 1, 0, 0x1000⟩,
     ⟨"_printf", 0x1, 0, 0, 0⟩, ⟨"_alias", 0xe, 1, 0, 0x1000⟩, ⟨"_next", 0xe, 1, 0, 0x1004⟩,
     ⟨"_first", 0xf, 2, 0, 0xfffffffffffffff0⟩]

theorem highImage_enclosed : highImage.Enclosed where
  apart := by
    refine List.pairwise_pair.mpr fun a hboth => ?_
    obtain ⟨-, hlt⟩ := Section.contains_iff.mp hboth.1
    obtain ⟨hle, -⟩ := Section.contains_iff.mp hboth.2
    exact absurd (Nat.lt_of_le_of_lt hle hlt) (by decide)
  inside := by
    rintro s ⟨hs, hdef⟩
    have hall : ∀ s ∈ highImage.symbols, s.isSectionDefined = true →
        ∃ home ∈ highImage.home? s, home.contains s.value = true := by decide
    exact hall s hs hdef

theorem high_extents_end_at_next_symbol :
    highImage.Enclosed ∧
      (∃ g, (build highImage).groupOf? 3 = some g ∧
        g.address = 0x1000 ∧ g.address.toNat + g.size.toNat = 0x1004) ∧
      ∃ g, (build highImage).groupOf? 0 = some g ∧
        g.address = 0xfffffffffffffff8 ∧ g.address.toNat + g.size.toNat = 2 ^ 64 - 1 := by
  obtain ⟨hextents, -, -⟩ := extents_end_at_next_symbol highImage_enclosed
  obtain ⟨home, g, hhome, hg, hextent⟩ := hextents 3 _ rfl rfl
  obtain ⟨home', g', hhome', hg', hextent'⟩ := hextents 0 _ rfl rfl
  obtain rfl := Option.some.inj hhome
  obtain rfl := Option.some.inj hhome'
  refine ⟨highImage_enclosed, ⟨g, hg, hextent.address_eq, ?_⟩, g', hg', hextent'.address_eq, ?_⟩
  · rw [hextent.end_eq]
    decide
  · rw [hextent'.end_eq]
    decide

end SymbolIndex

end MachInspect
