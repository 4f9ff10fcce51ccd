-- SUMMARY: Which symbols have a page.
import MachInspect.View.Symbol

/-!
# Places of symbols

A symbol has a page if and only if it has a place: a group, and a section that it is declared in.
What is on the page depends on the place and on what is known of the declared type.
-/
namespace MachInspect.View

variable {ctx : Context} {number : UInt64} {place : Place}

theorem symbolPlace_eq_ok_iff :
    symbolPlace ctx number = .ok place ↔
      ctx.image.symbols[number.toNat]? = some place.symbol ∧
        ctx.index.groupOf? number.toNat = some place.group ∧
        ctx.image.home? place.symbol = some place.home := by
  unfold symbolPlace
  constructor
  · intro h
    split at h
    · rename_i s hs
      split at h
      · rename_i g hg
        split at h
        · rename_i home hhome
          cases h
          exact ⟨hs, hg, hhome⟩
        · cases h
      · cases h
    · cases h
  · rintro ⟨hs, hg, hhome⟩
    simp only [hs, hg, hhome]
    rfl

theorem symbolView_eq_ok_iff {semantic : Semantic} {declaration : Declaration} {view : RowView} :
    symbolView ctx number semantic declaration = .ok view ↔
      ∃ place, symbolPlace ctx number = .ok place ∧ place.view ctx semantic declaration = view := by
  unfold symbolView
  cases symbolPlace ctx number with
  | error e => exact ⟨nofun, nofun⟩
  | ok place => exact ⟨fun h => ⟨place, rfl, Except.ok.inj h⟩, fun ⟨_, rfl, h⟩ => congrArg _ h⟩

end MachInspect.View
