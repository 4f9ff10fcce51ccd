-- SUMMARY: Binding puts every relocation in the one group that holds it, or else into a warning.
import Mathlib.Algebra.GroupWithZero.Nat
import MachInspect.Proofs.Image.Numbering
import MachInspect.Proofs.Symbols.Groups

/-!
# Binding relocations

Every relocation entry that stands on its own goes to exactly one place: the group that holds all
the bytes it patches, or the warnings. The entries come in section order, so they stay in order in
each group. An entry is told apart by the number of its section and its position there.
-/
namespace MachInspect

/-! ## Distributing a list -/

/-- Sorting the elements of a list into numbered buckets keeps each element that has a bucket. -/
theorem perm_flatMap_buckets {α : Type} (place : α → Option Nat) (l : List α) (n : Nat) :
    ((List.range n).flatMap fun k => l.filter fun a => place a = some k).Perm
      (l.filter fun a => (place a).any (· < n)) := by
  induction n with
  | zero => simp
  | succ n ih =>
    have hsplit := List.filter_append_perm (fun a => (place a).any (· < n))
      (l.filter fun a => (place a).any (· < n + 1))
    have hbelow : (l.filter fun a => (place a).any (· < n + 1)).filter
        (fun a => (place a).any (· < n)) = l.filter fun a => (place a).any (· < n) := by
      rw [List.filter_filter]
      refine List.filter_congr fun a _ => ?_
      cases place a with
      | none => rfl
      | some k =>
        rw [Bool.eq_iff_iff]
        simp
        omega
    have hlast : (l.filter fun a => (place a).any (· < n + 1)).filter
        (fun a => !(place a).any (· < n)) = l.filter fun a => place a = some n := by
      rw [List.filter_filter]
      refine List.filter_congr fun a _ => ?_
      cases place a with
      | none => rfl
      | some k =>
        rw [Bool.eq_iff_iff]
        simp
        omega
    rw [hbelow, hlast] at hsplit
    rw [List.range_succ, List.flatMap_append]
    exact (ih.append_right _).trans (by simpa using hsplit)

/-- In a strictly ordered list, a key that tells elements apart picks out its one element. -/
theorem filter_eq_singleton {α : Type} {r : α → α → Prop} {p : α → Bool} {l : List α} {x : α}
    (hordered : l.Pairwise r) (hx : x ∈ l) (hpx : p x = true)
    (hkey : ∀ a b, p a = true → p b = true → ¬ r a b) : l.filter p = [x] := by
  have hpairs : (l.filter p).Pairwise fun _ _ => False :=
    (hordered.filter p).imp_of_mem fun ha hb hr =>
      hkey _ _ (List.mem_filter.mp ha).2 (List.mem_filter.mp hb).2 hr
  have hmem : x ∈ l.filter p := List.mem_filter.mpr ⟨hx, hpx⟩
  match hl : l.filter p, hpairs, hmem with
  | [y], _, hmem => rw [List.mem_singleton.mp hmem]
  | y :: z :: _, hpairs, _ => exact ((List.pairwise_cons.mp hpairs).1 z List.mem_cons_self).elim

/-! ## Entries -/

/-- Order of entries: by section, then by position. -/
def BoundReloc.Before (b c : BoundReloc) : Prop :=
  b.host < c.host ∨ b.host = c.host ∧ b.position < c.position

/-- The entry at a position of the section with a number. -/
def BoundReloc.isAt (number position : Nat) (b : BoundReloc) : Bool :=
  b.host == number && b.position == position

theorem BoundReloc.not_before_of_isAt {number position : Nat} {b c : BoundReloc}
    (hb : b.isAt number position = true) (hc : c.isAt number position = true) : ¬ b.Before c := by
  simp only [isAt, Bool.and_eq_true, beq_iff_eq] at hb hc
  unfold Before
  omega

namespace Image

theorem mem_bindable {image : Image} {e : Section × BoundReloc} :
    e ∈ image.bindable ↔
      e.1 ∈ image.sections ∧ e.2.host = e.1.index ∧
        e.1.relocs[e.2.position]? = some e.2.reloc ∧
        Reloc.isPair image.arch e.2.reloc = false := by
  simp only [bindable, List.mem_flatMap, List.mem_filter, List.mem_mapIdx]
  constructor
  · rintro ⟨s, hs, ⟨p, hp, rfl⟩, hpair⟩
    exact ⟨hs, rfl, List.getElem?_eq_getElem hp, by simpa using hpair⟩
  · rintro ⟨hs, hhost, hget, hpair⟩
    obtain ⟨hp, hreloc⟩ := List.getElem?_eq_some_iff.mp hget
    refine ⟨e.1, hs, ⟨e.2.position, hp, ?_⟩, by simpa using hpair⟩
    rw [hreloc, ← hhost]

theorem Numbered.pairwise_sections {image : Image} (hnumbered : image.Numbered) :
    image.sections.Pairwise fun s t => s.index < t.index := by
  refine List.pairwise_iff_getElem.mpr fun i j hi hj hij => ?_
  rw [hnumbered.index_eq (List.getElem?_eq_getElem hi),
    hnumbered.index_eq (List.getElem?_eq_getElem hj)]
  omega

/-- Entries come by section, and by position in each section. -/
theorem Numbered.pairwise_bindable {image : Image} (hnumbered : image.Numbered) :
    image.bindable.Pairwise fun e f => e.2.Before f.2 := by
  refine List.pairwise_flatMap.mpr ⟨fun s _ => ?_, ?_⟩
  · refine List.Pairwise.filter _ (List.pairwise_iff_getElem.mpr fun p q hp hq hpq => ?_)
    simp only [List.getElem_mapIdx]
    exact .inr ⟨rfl, hpq⟩
  · refine hnumbered.pairwise_sections.imp fun {s t} hlt e he f hf => ?_
    simp only [List.mem_filter, List.mem_mapIdx] at he hf
    obtain ⟨⟨p, hp, rfl⟩, -⟩ := he
    obtain ⟨⟨q, hq, rfl⟩, -⟩ := hf
    exact .inl hlt

/-- An entry that stands on its own is listed once. -/
theorem Numbered.filter_bindable {image : Image} (hnumbered : image.Numbered) {i p : Nat}
    {home : Section} {r : Reloc} (hhome : image.sections[i]? = some home)
    (hr : home.relocs[p]? = some r) (hpair : Reloc.isPair image.arch r = false) :
    image.bindable.filter (fun e => e.2.isAt (i + 1) p) = [(home, ⟨r, i + 1, p⟩)] := by
  have hmem : (home, ⟨r, i + 1, p⟩) ∈ image.bindable :=
    mem_bindable.mpr ⟨List.mem_of_getElem? hhome, (hnumbered.index_eq hhome).symm, hr, hpair⟩
  refine filter_eq_singleton hnumbered.pairwise_bindable hmem (by simp [BoundReloc.isAt]) ?_
  exact fun e f he hf => BoundReloc.not_before_of_isAt he hf

/-- The second half of a pair is not listed. -/
theorem Numbered.filter_bindable_pair {image : Image} (hnumbered : image.Numbered) {i p : Nat}
    {home : Section} {r : Reloc} (hhome : image.sections[i]? = some home)
    (hr : home.relocs[p]? = some r) (hpair : Reloc.isPair image.arch r = true) :
    image.bindable.filter (fun e => e.2.isAt (i + 1) p) = [] := by
  refine List.filter_eq_nil_iff.mpr fun e he hat => ?_
  obtain ⟨hs, hhost, hget, hnot⟩ := mem_bindable.mp he
  simp only [BoundReloc.isAt, Bool.and_eq_true, beq_iff_eq] at hat
  obtain ⟨j, hj, hsection⟩ := List.getElem_of_mem hs
  have hj' : image.sections[j]? = some e.1 := hsection ▸ List.getElem?_eq_getElem hj
  have hindex := hnumbered.index_eq hj'
  obtain rfl : j = i := by omega
  obtain rfl : e.1 = home := Option.some.inj (hj'.symm.trans hhome)
  rw [hat.2] at hget
  obtain rfl : e.2.reloc = r := Option.some.inj (hget.symm.trans hr)
  simp [hpair] at hnot

end Image

/-! ## Groups that hold an operand -/

theorem Reloc.width_le (r : Reloc) : r.width ≤ 8 := by
  have h : r.length.toNat % 4 ≤ 3 := by omega
  exact Nat.pow_le_pow_right (by omega) h

/-- All of the `width` bytes at `address` lie in the extent of the group. Ends past the last address
count as the last address. -/
def SymbolGroup.Holds (g : SymbolGroup) (address : UInt64) (width : Nat) : Prop :=
  g.address.toNat ≤ address.toNat ∧
    address.toNat < min (g.address.toNat + g.size.toNat) (2 ^ 64 - 1) ∧
    min (address.toNat + width) (2 ^ 64 - 1) ≤ min (g.address.toNat + g.size.toNat) (2 ^ 64 - 1)

theorem SymbolGroup.holds_iff {g : SymbolGroup} {a : UInt64} {width : Nat}
    (hwidth : width < 2 ^ 64) :
    g.holds a width = true ↔ g.Holds a width := by
  have hwidth' : (UInt64.ofNat width).toNat = width := UInt64.toNat_ofNat_of_lt' hwidth
  simp only [holds, Bool.and_eq_true, contains_iff, decide_eq_true_eq, UInt64.le_iff_toNat_le,
    toNat_saturatingAdd, hwidth', limit, Holds, and_assoc]

namespace SymbolIndex

/-- Relocations do not matter for where groups start. -/
theorem lastStart_map_bare {groups : List SymbolGroup} {a : UInt64} {k : Nat} {g : SymbolGroup}
    (hk : groups[k]? = some g) :
    LastStart (groups.map SymbolGroup.bare) a k g.bare ↔ LastStart groups a k g := by
  constructor
  · intro h
    refine ⟨hk, h.started, fun {j g'} hj hle => ?_⟩
    have hbare : (groups.map SymbolGroup.bare)[j]? = some g'.bare := by simp [hj]
    exact h.last hbare hle
  · intro h
    refine ⟨by simp [hk], h.started, fun {j g'} hj hle => ?_⟩
    obtain ⟨g'', hg'', rfl⟩ : ∃ g'', groups[j]? = some g'' ∧ g''.bare = g' := by simpa using hj
    exact h.last hg'' hle

/-- Position of the group that an entry of the image is bound to. -/
def place (image : Image) (e : Section × BoundReloc) : Option Nat :=
  holder? (image.groupSorted image.addressedSymbols) e.1 e.2

/-- The group at position `k` is the last one to start at or before the operand of an entry, and it
holds all of the operand. -/
def HeldBy (image : Image) (home : Section) (r : Reloc) (k : Nat) (g : SymbolGroup) : Prop :=
  LastStart (build image).groups (home.relocAddress r) k g ∧
    g.Holds (home.relocAddress r) r.width

theorem place_eq_some_iff {image : Image} {home : Section} {b : BoundReloc} {k : Nat} :
    place image (home, b) = some k ↔ ∃ g, HeldBy image home b.reloc k g := by
  have hsorted := image.pairwise_groupSorted image.ascending_addressedSymbols
  have hwidth : b.reloc.width < 2 ^ 64 := Nat.lt_of_le_of_lt b.reloc.width_le (by decide)
  unfold place holder?
  rw [Option.filter_eq_some_iff, candidate?_eq_some_iff_lastStart hsorted, ← map_bare_build]
  constructor
  · rintro ⟨⟨g', hlast⟩, hholds⟩
    obtain ⟨g, hg, rfl⟩ : ∃ g, (build image).groups[k]? = some g ∧ g.bare = g' := by
      simpa using hlast.found
    refine ⟨g, (lastStart_map_bare hg).mp hlast, ?_⟩
    simp only [hlast.found] at hholds
    exact (SymbolGroup.holds_iff hwidth).mp hholds
  · rintro ⟨g, hlast, hholds⟩
    have hbare := (lastStart_map_bare hlast.found).mpr hlast
    refine ⟨⟨g.bare, hbare⟩, ?_⟩
    simp only [hbare.found]
    exact (SymbolGroup.holds_iff hwidth).mpr hholds

theorem place_lt {image : Image} {e : Section × BoundReloc} {k : Nat}
    (h : place image e = some k) : k < (build image).groups.length := by
  obtain ⟨g, hlast, -⟩ := place_eq_some_iff.mp h
  exact (List.getElem?_eq_some_iff.mp hlast.found).1

/-! ## Where entries go -/

/-- The entries that are bound to the group at position `k`. -/
def boundTo (image : Image) (k : Nat) : List BoundReloc :=
  (image.bindable.filter fun e => place image e = some k).map Prod.snd

/-- The entries that no group holds. -/
def unbound (image : Image) : List (Section × BoundReloc) :=
  image.bindable.filter fun e => place image e = none

theorem filterMap_placed {α β : Type} (entries : List (Section × BoundReloc))
    (f : Section × BoundReloc → α) (make : Section → BoundReloc → β) (p : α → Prop)
    [DecidablePred p] :
    ((entries.map fun e => (e.1, e.2, f e)).filterMap fun x =>
      if p x.2.2 then some (make x.1 x.2.1) else none) =
        (entries.filter fun e => p (f e)).map fun e => make e.1 e.2 := by
  induction entries with
  | nil => rfl
  | cons e rest ih =>
    by_cases h : p (f e)
    · simpa [h] using ih
    · simpa [h] using ih

theorem build_relocs {image : Image} {k : Nat} {g : SymbolGroup}
    (hk : (build image).groups[k]? = some g) : g.relocs = boundTo image k := by
  simp only [build, List.getElem?_mapIdx, Option.map_eq_some_iff] at hk
  obtain ⟨g', -, rfl⟩ := hk
  exact filterMap_placed image.bindable (place image) (fun _ b => b) (· = some k)

theorem build_warnings (image : Image) :
    (build image).warnings = (unbound image).map fun e => unboundWarning e.1 e.2 :=
  filterMap_placed image.bindable (place image) unboundWarning (· = none)

/-- All relocations of the groups, in the order of the groups. -/
theorem flatMap_relocs_build (image : Image) :
    (build image).groups.flatMap SymbolGroup.relocs =
      (List.range (build image).groups.length).flatMap (boundTo image) := by
  have hmap : (build image).groups.map SymbolGroup.relocs =
      (List.range (build image).groups.length).map (boundTo image) := by
    refine List.ext_getElem (by simp) fun k hk _ => ?_
    simp only [List.length_map] at hk
    simpa using build_relocs (List.getElem?_eq_getElem hk)
  rw [List.flatMap_def, hmap, ← List.flatMap_def]

/-- The groups hold exactly the entries that have a place. -/
theorem perm_relocs_build (image : Image) :
    ((build image).groups.flatMap SymbolGroup.relocs).Perm
      ((image.bindable.filter fun e => (place image e).isSome).map Prod.snd) := by
  have hperm := perm_flatMap_buckets (place image) image.bindable (build image).groups.length
  have hany : (image.bindable.filter fun e =>
      (place image e).any (· < (build image).groups.length)) =
        image.bindable.filter fun e => (place image e).isSome := by
    refine List.filter_congr fun e _ => ?_
    cases hplace : place image e with
    | none => rfl
    | some k => simpa using place_lt hplace
  rw [hany] at hperm
  have hmapped := hperm.map Prod.snd
  rw [List.map_flatMap] at hmapped
  rw [flatMap_relocs_build]
  exact hmapped

/-! ## The partition -/

/-- What the groups of an index hold of the entry at a position of a section. -/
def occurrences (index : SymbolIndex) (number position : Nat) : List BoundReloc :=
  (index.groups.flatMap SymbolGroup.relocs).filter (BoundReloc.isAt number position)

/-- The warnings about the entry at a position of a section, as the entries they are about. -/
def warned (image : Image) (number position : Nat) : List (Section × BoundReloc) :=
  (unbound image).filter fun e => e.2.isAt number position

/-- The entry is bound to the group that holds it, once, and to no other. -/
structure Bound (image : Image) (home : Section) (b : BoundReloc) : Prop where
  held : ∃ k g, HeldBy image home b.reloc k g ∧ b ∈ g.relocs
  once : (build image).occurrences b.host b.position = [b]
  quiet : warned image b.host b.position = []

/-- No group holds the entry; it is in none of them and has one warning. -/
structure Reported (image : Image) (home : Section) (b : BoundReloc) : Prop where
  unheld : ¬ ∃ k g, HeldBy image home b.reloc k g
  nowhere : (build image).occurrences b.host b.position = []
  warning : warned image b.host b.position = [(home, b)]

theorem perm_occurrences (image : Image) (number position : Nat) :
    ((build image).occurrences number position).Perm
      (((image.bindable.filter fun e => e.2.isAt number position).filter
        fun e => (place image e).isSome).map Prod.snd) := by
  have hperm := (perm_relocs_build image).filter (BoundReloc.isAt number position)
  rw [List.filter_map, List.filter_filter] at hperm
  rw [List.filter_filter]
  simpa only [occurrences, Function.comp_def, Bool.and_comm] using hperm

theorem warned_eq (image : Image) (number position : Nat) :
    warned image number position =
      (image.bindable.filter fun e => e.2.isAt number position).filter
        fun e => place image e = none := by
  simp only [warned, unbound, List.filter_filter, Bool.and_comm]

theorem bound_of_place {image : Image} (hnumbered : image.Numbered) {i p k : Nat}
    {home : Section} {r : Reloc} (hhome : image.sections[i]? = some home)
    (hr : home.relocs[p]? = some r) (hpair : Reloc.isPair image.arch r = false)
    (hplace : place image (home, ⟨r, i + 1, p⟩) = some k) :
    Bound image home ⟨r, i + 1, p⟩ := by
  have hentry := hnumbered.filter_bindable hhome hr hpair
  obtain ⟨g, hlast, hholds⟩ := place_eq_some_iff.mp hplace
  refine ⟨⟨k, g, ⟨hlast, hholds⟩, ?_⟩, ?_, ?_⟩
  · rw [build_relocs hlast.found, boundTo]
    have hmem : (home, ⟨r, i + 1, p⟩) ∈ image.bindable :=
      (List.mem_filter.mp (hentry ▸ List.mem_singleton_self _)).1
    exact List.mem_map.mpr ⟨_, List.mem_filter.mpr ⟨hmem, by simpa using hplace⟩, rfl⟩
  · have hperm := perm_occurrences image (i + 1) p
    rw [hentry] at hperm
    exact List.perm_singleton.mp (by simpa [hplace] using hperm)
  · rw [warned_eq, hentry]
    simp [hplace]

theorem reported_of_place {image : Image} (hnumbered : image.Numbered) {i p : Nat}
    {home : Section} {r : Reloc} (hhome : image.sections[i]? = some home)
    (hr : home.relocs[p]? = some r) (hpair : Reloc.isPair image.arch r = false)
    (hplace : place image (home, ⟨r, i + 1, p⟩) = none) :
    Reported image home ⟨r, i + 1, p⟩ := by
  have hentry := hnumbered.filter_bindable hhome hr hpair
  refine ⟨?_, ?_, ?_⟩
  · rintro ⟨k, g, hheld⟩
    have := place_eq_some_iff.mpr ⟨g, hheld⟩
    simp [hplace] at this
  · have hperm := perm_occurrences image (i + 1) p
    rw [hentry] at hperm
    exact List.perm_nil.mp (by simpa [hplace] using hperm)
  · rw [warned_eq, hentry]
    simp [hplace]

theorem length_bindable (image : Image) :
    image.bindable.length =
      (image.sections.map fun s =>
        (s.relocs.filter fun r => !Reloc.isPair image.arch r).length).sum := by
  simp only [Image.bindable, List.length_flatMap]
  congr 1
  refine List.map_congr_left fun s _ => ?_
  let entries := s.relocs.mapIdx fun p r => (s, (⟨r, s.index, p⟩ : BoundReloc))
  have hrelocs : entries.map (fun e => e.2.reloc) = s.relocs := by
    refine List.ext_getElem (by simp [entries]) fun p _ _ => ?_
    simp [entries]
  have hfilter := List.filter_map (p := fun r => !Reloc.isPair image.arch r)
    (f := fun e : Section × BoundReloc => e.2.reloc) (l := entries)
  rw [hrelocs] at hfilter
  rw [hfilter, List.length_map]
  rfl

theorem sum_length_build (image : Image) :
    ((build image).groups.map fun g => g.relocs.length).sum + (build image).warnings.length =
      image.bindable.length := by
  have hbound := (perm_relocs_build image).length_eq
  rw [List.length_flatMap, List.length_map] at hbound
  rw [hbound, build_warnings, List.length_map, unbound]
  have hsplit :=
    (List.filter_append_perm (fun e => (place image e).isSome) image.bindable).length_eq
  rw [List.length_append] at hsplit
  have hnone : (image.bindable.filter fun e => !(place image e).isSome) =
      image.bindable.filter fun e => place image e = none := by
    refine List.filter_congr fun e _ => ?_
    cases place image e <;> rfl
  rw [← hnone]
  exact hsplit

section Numbered

variable {image : Image} {home : Section} {r : Reloc} {i p : Nat}

/-- An entry that stands on its own is bound or reported, and never both. -/
theorem bound_or_reported (hnumbered : image.Numbered) (hhome : image.sections[i]? = some home)
    (hr : home.relocs[p]? = some r) (hpair : Reloc.isPair image.arch r = false) :
    (Bound image home ⟨r, i + 1, p⟩ ∨ Reported image home ⟨r, i + 1, p⟩) ∧
      ¬ (Bound image home ⟨r, i + 1, p⟩ ∧ Reported image home ⟨r, i + 1, p⟩) := by
  refine ⟨?_, ?_⟩
  · cases hplace : place image (home, ⟨r, i + 1, p⟩) with
    | none => exact .inr (reported_of_place hnumbered hhome hr hpair hplace)
    | some k => exact .inl (bound_of_place hnumbered hhome hr hpair hplace)
  · rintro ⟨hbound, hreported⟩
    obtain ⟨k, g, hheld, -⟩ := hbound.held
    exact hreported.unheld ⟨k, g, hheld⟩

/-- The second half of a pair is neither bound nor reported. -/
theorem pair_nowhere (hnumbered : image.Numbered) (hhome : image.sections[i]? = some home)
    (hr : home.relocs[p]? = some r) (hpair : Reloc.isPair image.arch r = true) :
    (build image).occurrences (i + 1) p = [] ∧ warned image (i + 1) p = [] := by
  have hentry := hnumbered.filter_bindable_pair hhome hr hpair
  have hperm := perm_occurrences image (i + 1) p
  rw [hentry] at hperm
  refine ⟨List.perm_nil.mp hperm, ?_⟩
  rw [warned_eq, hentry]
  rfl

/-- Groups keep the order of the entries. -/
theorem pairwise_relocs (hnumbered : image.Numbered) {g : SymbolGroup}
    (hg : g ∈ (build image).groups) : g.relocs.Pairwise BoundReloc.Before := by
  obtain ⟨k, hk, rfl⟩ := List.getElem_of_mem hg
  rw [build_relocs (List.getElem?_eq_getElem hk), boundTo, List.pairwise_map]
  exact hnumbered.pairwise_bindable.filter _

/-- What a group holds is an entry of a section, at its position there. -/
theorem exists_section_of_mem_relocs (hnumbered : image.Numbered) {g : SymbolGroup}
    (hg : g ∈ (build image).groups) {b : BoundReloc} (hb : b ∈ g.relocs) :
    ∃ i home, image.sections[i]? = some home ∧ b.host = i + 1 ∧
      home.relocs[b.position]? = some b.reloc := by
  obtain ⟨k, hk, rfl⟩ := List.getElem_of_mem hg
  rw [build_relocs (List.getElem?_eq_getElem hk), boundTo] at hb
  obtain ⟨e, he, rfl⟩ := List.mem_map.mp hb
  obtain ⟨hs, hhost, hget, -⟩ := Image.mem_bindable.mp (List.mem_filter.mp he).1
  obtain ⟨i, hi, hsection⟩ := List.getElem_of_mem hs
  have hi' : image.sections[i]? = some e.1 := hsection ▸ List.getElem?_eq_getElem hi
  exact ⟨i, e.1, hi', by rw [hhost, hnumbered.index_eq hi'], hget⟩

end Numbered

/-- Binding is a partition. An entry that stands on its own is either bound once, to the last group
that starts at or before its operand, which then holds all of it, or in no group and in one warning;
the second half of a pair is nowhere. Groups keep the entries in order, and nothing else is bound or
warned of. -/
theorem build_partitions_relocations {image : Image} (hnumbered : image.Numbered) :
    (∀ i p home r, image.sections[i]? = some home → home.relocs[p]? = some r →
      (Reloc.isPair image.arch r = true →
        (build image).occurrences (i + 1) p = [] ∧ warned image (i + 1) p = []) ∧
      (Reloc.isPair image.arch r = false →
        (Bound image home ⟨r, i + 1, p⟩ ∨ Reported image home ⟨r, i + 1, p⟩) ∧
          ¬ (Bound image home ⟨r, i + 1, p⟩ ∧ Reported image home ⟨r, i + 1, p⟩))) ∧
    (build image).warnings = (unbound image).map (fun e => unboundWarning e.1 e.2) ∧
    (∀ g ∈ (build image).groups, g.relocs.Pairwise BoundReloc.Before) ∧
    (∀ g ∈ (build image).groups, ∀ b ∈ g.relocs, ∃ i home, image.sections[i]? = some home ∧
      b.host = i + 1 ∧ home.relocs[b.position]? = some b.reloc) ∧
    ((build image).groups.map fun g => g.relocs.length).sum + (build image).warnings.length =
      (image.sections.map fun s =>
        (s.relocs.filter fun r => !Reloc.isPair image.arch r).length).sum := by
  refine ⟨?_, build_warnings image, ?_, ?_, ?_⟩
  · intro i p home r hhome hr
    exact ⟨pair_nowhere hnumbered hhome hr, bound_or_reported hnumbered hhome hr⟩
  · intro g hg
    exact pairwise_relocs hnumbered hg
  · intro g hg b hb
    exact exists_section_of_mem_relocs hnumbered hg hb
  · rw [sum_length_build, length_bindable]

/-- In a file that can be read, every entry of every section is accounted for: one that stands on
its own is bound or reported, and never both, and the second half of a pair is neither. -/
theorem relocations_of_read_accounted {host : Arch} {file : Bytes} {image : Image}
    (hread : Image.read host file = .ok image) {home : Section} {r : Reloc} {i p : Nat}
    (hhome : image.sections[i]? = some home) (hr : home.relocs[p]? = some r) :
    if Reloc.isPair image.arch r then
      (build image).occurrences (i + 1) p = [] ∧ warned image (i + 1) p = []
    else
      (Bound image home ⟨r, i + 1, p⟩ ∨ Reported image home ⟨r, i + 1, p⟩) ∧
        ¬ (Bound image home ⟨r, i + 1, p⟩ ∧ Reported image home ⟨r, i + 1, p⟩) := by
  have hnumbered : image.Numbered := Image.read_numbered hread
  split
  · rename_i hpair
    exact pair_nowhere hnumbered hhome hr hpair
  · rename_i hpair
    exact bound_or_reported hnumbered hhome hr (Bool.eq_false_iff.mpr hpair)

/-- An x86 section of two symbols: an entry in the first, one across both, and a pair in the
second. -/
def straddledSection : Section :=
  ⟨1, "__TEXT", "__text", 0x1000, 8, 0, 0, 0, 0, 0, [0, 0, 0, 0, 0, 0, 0, 0],
    [⟨0, 0, 0, 2, false, true, false⟩, ⟨2, 0, 0, 2, false, true, false⟩,
     ⟨4, 0x1004, 2, 2, false, false, true⟩, ⟨0, 0x1000, 1, 2, false, false, true⟩]⟩

def straddledImage : Image :=
  Image.ofParts 7 3 1 0 .little [straddledSection]
    [⟨"_lo", 0xf, 1, 0, 0x1000⟩, ⟨"_hi", 0xf, 1, 0, 0x1004⟩]

theorem straddledImage_relocs : (build straddledImage).groups.map SymbolGroup.relocs =
    [[⟨⟨0, 0, 0, 2, false, true, false⟩, 1, 0⟩],
     [⟨⟨4, 0x1004, 2, 2, false, false, true⟩, 1, 2⟩]] := by
  have hgroups : straddledImage.groupSorted straddledImage.addressedSymbols =
      [⟨0x1000, 4, [0], []⟩, ⟨0x1004, 4, [1], []⟩] :=
    Image.groupSorted_addressedSymbols (by decide) (by decide)
  rw [build, hgroups]
  decide

theorem straddled_build_partitions_relocations :
    straddledImage.Numbered ∧
    Bound straddledImage straddledSection ⟨⟨0, 0, 0, 2, false, true, false⟩, 1, 0⟩ ∧
    Reported straddledImage straddledSection ⟨⟨2, 0, 0, 2, false, true, false⟩, 1, 1⟩ ∧
    (build straddledImage).occurrences 1 3 = [] := by
  have hnumbered : straddledImage.Numbered := Image.ofParts_numbered _ _ _ _ _ _ _
  obtain ⟨hentries, -⟩ := build_partitions_relocations hnumbered
  refine ⟨hnumbered, ?_, ?_, ?_⟩
  · obtain ⟨hbound | hreported, -⟩ := (hentries 0 0 straddledSection _ rfl rfl).2 rfl
    · exact hbound
    · have hsome : (build straddledImage).occurrences 1 0 =
          [⟨⟨0, 0, 0, 2, false, true, false⟩, 1, 0⟩] := by
        rw [occurrences, List.flatMap_def, straddledImage_relocs]
        rfl
      exact absurd (hsome.symm.trans hreported.nowhere) (by simp)
  · obtain ⟨hbound | hreported, -⟩ := (hentries 0 1 straddledSection _ rfl rfl).2 rfl
    · have hnone : (build straddledImage).occurrences 1 1 = [] := by
        rw [occurrences, List.flatMap_def, straddledImage_relocs]
        rfl
      exact absurd (hbound.once.symm.trans hnone) (by simp)
    · exact hreported
  · exact ((hentries 0 3 straddledSection _ rfl rfl).1 rfl).1

/-- An entry whose length is four, which stands for one byte like a length of zero. -/
def overlongImage : Image :=
  Image.ofParts 0x1000007 3 1 0 .little
    [⟨1, "__TEXT", "__text", 0x1000, 8, 0, 0, 0, 0, 0, [0, 0, 0, 0, 0, 0, 0, 0],
      [⟨0, 0, 0, 4, false, true, false⟩]⟩]
    [⟨"_a", 0xf, 1, 0, 0x1000⟩]

/-- Sixteen bytes do not fit into the group, but an entry of length four is bound to it. -/
theorem overlong_entry_bound :
    (build overlongImage).groups =
      [⟨0x1000, 8, [0], [⟨⟨0, 0, 0, 4, false, true, false⟩, 1, 0⟩]⟩] ∧
    (build overlongImage).warnings = [] ∧
    ¬ SymbolGroup.Holds ⟨0x1000, 8, [0], [⟨⟨0, 0, 0, 4, false, true, false⟩, 1, 0⟩]⟩ 0x1000
      (2 ^ 4) := by
  have hgroups : overlongImage.groupSorted overlongImage.addressedSymbols =
      [⟨0x1000, 8, [0], []⟩] := Image.groupSorted_addressedSymbols (by decide) (by decide)
  rw [build, hgroups]
  refine ⟨by decide, by decide, ?_⟩
  rintro ⟨-, -, hend⟩
  exact absurd hend (by decide)

end SymbolIndex

end MachInspect
