-- SUMMARY: At which pages of sections and symbols the program stops.
import Mathlib.Data.UInt
import MachInspect.Proofs.Reloc.Overflow
import MachInspect.Proofs.View.Ranges
import MachInspect.View.Symbol

/-!
# Pages that overflow

All relocations of a page have their targets looked up before any row is made. So whether the
program stops at a page is a matter of its relocations, not of what the rows show, as long as the
addresses of the rows do not go around the end of the address space.
-/
namespace MachInspect.View

variable {index : SymbolIndex} {home : Section} {position : Nat}

/-- The row of a relocation, if there is one, lacks a target exactly if a sum overflows. -/
theorem any_overflows_of?_iff :
    (RelocRow.of? index home position).any RelocRow.overflows = true ↔
      home.SumOverflows index.image position := by
  rw [RelocRow.of?]
  cases hr : home.relocs[position]? with
  | none =>
    refine iff_of_false (fun h => by cases h) ?_
    rintro ⟨r, bytes, hr', -⟩
    rw [hr] at hr'
    cases hr'
  | some r => exact Option.isNone_iff_eq_none.trans Section.relocTarget_eq_none_iff

/-- Rows of a section that ends in the address space have addresses in it. -/
theorem addressesOverflow_sectionView (ctx : Context) {home : Section} (semantic : Semantic)
    (hfits : home.addr.toNat + home.size.toNat < 2 ^ 64) :
    addressesOverflow home (sectionView ctx home semantic).rows = false := by
  cases hzeros : home.isZeroFill with
  | true => rw [addressesOverflow, hzeros]; rfl
  | false =>
    have hshow : ShowBytes _ _ (sectionView ctx home semantic).rows :=
      showBytes_sectionView hzeros hfits
    rw [addressesOverflow, hzeros, Bool.not_false, Bool.true_and, List.any_eq_false]
    intro row hrow
    have hstart := hshow.toFollow.start_le row hrow
    simpa [UInt64.le_iff_toNat_le] using hstart

/-- The program stops at the page of a section that ends in the address space if and only if an
entry that stands on its own overflows, whatever the section is shown as. -/
theorem overflows_sectionView_iff (ctx : Context) {home : Section} (semantic : Semantic)
    (hfits : home.addr.toNat + home.size.toNat < 2 ^ 64) :
    (sectionView ctx home semantic).overflows = true ↔
      ∃ position r, home.relocs[position]? = some r ∧ Reloc.isPair ctx.image.arch r = false ∧
        home.SumOverflows ctx.image position := by
  have hview : (sectionView ctx home semantic).overflows =
      ((sectionRelocRows ctx.index home).any RelocRow.overflows ||
        addressesOverflow home (sectionView ctx home semantic).rows) := rfl
  rw [hview, addressesOverflow_sectionView ctx semantic hfits, Bool.or_false, sectionRelocRows,
    List.any_filterMap, List.any_eq_true]
  constructor
  · rintro ⟨⟨r, position⟩, hmem, hoverflows⟩
    obtain ⟨hentry, hown⟩ := List.mem_filter.mp hmem
    have hr := List.mem_zipIdx_iff_getElem?.mp hentry
    have hown' : Reloc.isPair ctx.image.arch r = false := by simpa [Context.image] using hown
    exact ⟨position, r, hr, hown', any_overflows_of?_iff.mp hoverflows⟩
  · rintro ⟨position, r, hr, hown, hoverflows⟩
    have hentry : (r, position) ∈ home.relocs.zipIdx := List.mem_zipIdx_iff_getElem?.mpr hr
    refine ⟨(r, position), List.mem_filter.mpr ⟨hentry, ?_⟩, any_overflows_of?_iff.mpr hoverflows⟩
    simpa [Context.image] using hown

/-- The program stops at the page of a symbol if and only if a relocation of its group overflows,
whatever the symbol is shown as. -/
theorem overflows_view_iff (ctx : Context) (place : Place) (semantic : Semantic)
    (declaration : Declaration) :
    (place.view ctx semantic declaration).overflows = true ↔
      ∃ b ∈ place.group.relocs, ∃ host, ctx.image.sectionAt? (UInt32.ofNat b.host) = some host ∧
        host.SumOverflows ctx.image b.position := by
  have hview : (place.view ctx semantic declaration).overflows =
      (groupRelocRows ctx.index place.group).any RelocRow.overflows := rfl
  rw [hview, groupRelocRows, List.any_filterMap, List.any_eq_true]
  refine exists_congr fun b => and_congr_right fun _ => ?_
  change Option.any _ (Option.bind (ctx.image.sectionAt? _) _) = true ↔ _
  cases ctx.image.sectionAt? (UInt32.ofNat b.host) with
  | none => simp
  | some host => simpa [Context.image] using any_overflows_of?_iff

end MachInspect.View
