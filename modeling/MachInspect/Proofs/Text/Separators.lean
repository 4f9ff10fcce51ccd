-- SUMMARY: Cutting text at separators gives back the parts that were joined.
import MachInspect.Anchor

/-!
# Parts between separators

The part before the first separator is found again, whatever follows, and cutting at every separator
gives back parts that were joined.
-/
namespace MachInspect

section Beginnings

variable {α : Type} [DecidableEq α] {sep : α} {front : List α}

theorem takeWhile_append (h : sep ∉ front) (back : List α) :
    (front ++ back).takeWhile (· ≠ sep) = front ++ back.takeWhile (· ≠ sep) := by
  apply List.takeWhile_append_of_pos
  intro a ha
  apply decide_eq_true
  rintro rfl
  exact h ha

theorem takeWhile_of_notMem (h : sep ∉ front) : front.takeWhile (· ≠ sep) = front := by
  simpa using takeWhile_append h []

theorem takeWhile_append_sep (h : sep ∉ front) (back : List α) :
    (front ++ sep :: back).takeWhile (· ≠ sep) = front := by
  rw [takeWhile_append h]
  simp

end Beginnings

namespace Anchor

theorem splitOnce?_append {sep : Char} {front : List Char} (h : sep ∉ front) (back : List Char) :
    splitOnce? sep (front ++ sep :: back) = some (front, back) := by
  rw [splitOnce?, takeWhile_append_sep h]
  simp

theorem splitAll_eq_splitOn (sep : Char) (cs : List Char) : splitAll sep cs = cs.splitOn sep := by
  fun_induction splitAll sep cs with
  | case1 cs before hmore ih =>
    by_cases hsep : sep ∈ cs
    · obtain ⟨front, back, rfl, hfront⟩ := List.eq_append_cons_of_mem hsep
      have hbefore : before = front := takeWhile_append_sep hfront back
      have hback : (front ++ sep :: back).drop (front.length + 1) = back := by simp
      rw [hbefore, hback] at ih
      rw [hbefore, hback, ih, List.splitOn_append_cons_self_of_not_mem hfront]
    · have hbefore : before = cs := takeWhile_of_notMem hsep
      simp [hbefore] at hmore
  | case2 cs before hall =>
    by_cases hsep : sep ∈ cs
    · obtain ⟨front, back, rfl, hfront⟩ := List.eq_append_cons_of_mem hsep
      have hbefore : before = front := takeWhile_append_sep hfront back
      simp [hbefore] at hall
    · have hbefore : before = cs := takeWhile_of_notMem hsep
      rw [hbefore, List.splitOn_eq_singleton hsep]

end Anchor

end MachInspect
