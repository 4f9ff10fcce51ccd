-- SUMMARY: What a session answers when a section is asked for by its number.
import MachInspect.Proofs.Image.Numbering
import MachInspect.Proofs.Session.Transparency
import MachInspect.Proofs.Text.Numerals

/-!
# Sections by number

The number of a section is cut to 32 bits before the section is looked up. So a session answers every
number as it answers the remainder, and numbers past 32 bits can lead to a section that they do not
stand for.
-/
namespace MachInspect

open Text View

namespace Image

variable {image : Image} {number : UInt32} {home : Section}

theorem sectionAt?_eq :
    image.sectionAt? number =
      if number.toNat = 0 then none else image.sections[number.toNat - 1]? := by
  simp only [sectionAt?, ← UInt32.toNat_inj, UInt32.toNat_zero]

theorem sectionAt?_eq_none_iff :
    image.sectionAt? number = none ↔
      number.toNat = 0 ∨ image.sections.length < number.toNat := by
  rw [sectionAt?_eq]
  split
  · rename_i hzero
    simp [hzero]
  · rw [List.getElem?_eq_none_iff]
    omega

theorem Numbered.index_of_sectionAt? (h : image.Numbered)
    (hhome : image.sectionAt? number = some home) : home.index = number.toNat := by
  rw [sectionAt?_eq] at hhome
  split at hhome
  · cases hhome
  · rw [h.index_eq hhome]
    omega

theorem Numbered.getElem?_of_mem (h : image.Numbered) (hhome : home ∈ image.sections) :
    1 ≤ home.index ∧ home.index ≤ image.sections.length ∧
      image.sections[home.index - 1]? = some home := by
  obtain ⟨i, hi⟩ := List.mem_iff_getElem?.mp hhome
  have hlt : i < image.sections.length := (List.getElem?_eq_some_iff.mp hi).1
  rw [h.index_eq hi]
  exact ⟨by omega, hlt, hi⟩

theorem Numbered.eq_of_index_eq (h : image.Numbered) {other : Section}
    (hhome : home ∈ image.sections) (hother : other ∈ image.sections)
    (heq : home.index = other.index) : home = other := by
  obtain ⟨-, -, hget⟩ := h.getElem?_of_mem hhome
  obtain ⟨-, -, hget'⟩ := h.getElem?_of_mem hother
  rw [heq] at hget
  exact Option.some.inj (hget.symm.trans hget')

theorem Numbered.sectionAt?_of_mem (h : image.Numbered) (hhome : home ∈ image.sections)
    (hnumber : number.toNat = home.index) : image.sectionAt? number = some home := by
  obtain ⟨hpos, -, hget⟩ := h.getElem?_of_mem hhome
  rw [sectionAt?_eq, hnumber, if_neg (by omega), hget]

end Image

namespace Session

section Numbers

variable {image : Image} {options : Options} {earlier : List Request} {number : UInt64} {k : Nat}

/-- The session answers `number` as if it stood for the section with number `k`: pages and tables are
refused if there is no such section, and the numeral is found to mean that section. -/
structure AnswersAs (image : Image) (options : Options) (earlier : List Request) (number : UInt64)
    (k : Nat) : Prop where
  page_iff : ∀ semantic?,
    ((Request.sectionPage number semantic?).run ((start image options).after earlier)).1 =
        .error (.outOfRange .sections number) ↔
      k = 0 ∨ image.sections.length < k
  table_iff :
    ((Request.sectionTable number).run ((start image options).after earlier)).1 =
        .error (.outOfRange .sections number) ↔
      k = 0 ∨ image.sections.length < k
  find_eq : ((start image options).after earlier).findSection? (decimal number.toNat) =
    if 1 ≤ k ∧ k ≤ image.sections.length then some k else none

theorem sectionPage_refused_iff (semantic? : Option Semantic) :
    ((Request.sectionPage number semantic?).run ((start image options).after earlier)).1 =
        .error (.outOfRange .sections number) ↔
      image.sectionAt? number.toUInt32 = none := by
  rw [answer_after, answerOf, sectionRequestOf, pageOf]
  cases image.sectionAt? number.toUInt32 <;> simp [Except.map]

theorem sectionTable_refused_iff :
    ((Request.sectionTable number).run ((start image options).after earlier)).1 =
        .error (.outOfRange .sections number) ↔
      image.sectionAt? number.toUInt32 = none := by
  rw [answer_after, answerOf, sectionOf]
  cases image.sectionAt? number.toUInt32 <;> simp [Except.map]

theorem findSection?_decimal :
    ((start image options).after earlier).findSection? (decimal number.toNat) =
      (image.sectionAt? number.toUInt32).map Section.index := by
  have himage := ((consistent_start image options).after earlier).image_eq
  rw [findSection?, word?_decimal, himage]

/-- Each number is answered as its remainder. -/
theorem answersAs_remainder (h : image.Numbered) :
    AnswersAs image options earlier number (number.toNat % 2 ^ 32) := by
  have hcut : number.toUInt32.toNat = number.toNat % 2 ^ 32 := UInt64.toNat_toUInt32 number
  refine ⟨fun semantic? => ?_, ?_, ?_⟩
  · rw [sectionPage_refused_iff, Image.sectionAt?_eq_none_iff, hcut]
  · rw [sectionTable_refused_iff, Image.sectionAt?_eq_none_iff, hcut]
  · rw [findSection?_decimal]
    cases hhome : image.sectionAt? number.toUInt32 with
    | none =>
      have hnone := Image.sectionAt?_eq_none_iff.mp hhome
      rw [hcut] at hnone
      rw [if_neg (by omega)]
      rfl
    | some home =>
      have hsome : ¬ (number.toUInt32.toNat = 0 ∨
          image.sections.length < number.toUInt32.toNat) := by
        rw [← Image.sectionAt?_eq_none_iff, hhome]
        simp
      rw [Option.map_some, h.index_of_sectionAt? hhome, hcut]
      rw [hcut] at hsome
      rw [if_pos (by omega)]

/-- Numbers that no section has are answered alike. -/
theorem AnswersAs.of_no_section {m : Nat} (h : AnswersAs image options earlier number k)
    (hk : k = 0 ∨ image.sections.length < k) (hm : m = 0 ∨ image.sections.length < m) :
    AnswersAs image options earlier number m := by
  refine ⟨fun semantic? => ?_, ?_, ?_⟩
  · simp only [h.page_iff semantic?, hk, hm]
  · simp only [h.table_iff, hk, hm]
  · rw [h.find_eq, if_neg (by omega), if_neg (by omega)]

/-- A number is answered as its remainder. So it is answered as it should be if it has at most 32
bits, or if its remainder is not the number of a section, and in no other case. -/
theorem sections_answer_by_number_iff (himage : image.Addressable) (options : Options)
    (earlier : List Request) (number : UInt64) :
    AnswersAs image options earlier number (number.toNat % 2 ^ 32) ∧
    (AnswersAs image options earlier number number.toNat ↔
      number.toNat < 2 ^ 32 ∨ number.toNat % 2 ^ 32 = 0 ∨
        image.sections.length < number.toNat % 2 ^ 32) := by
  have hcut : AnswersAs image options earlier number (number.toNat % 2 ^ 32) :=
    answersAs_remainder himage.numbered
  refine ⟨hcut, ?_, ?_⟩
  · intro hnumber
    rcases Nat.lt_or_ge number.toNat (2 ^ 32) with hlt | hge
    · exact .inl hlt
    · have hfew := himage.length_lt
      have hrefused := hnumber.table_iff.mpr (.inr (by omega))
      exact .inr (hcut.table_iff.mp hrefused)
  · rintro (hlt | hnone)
    · rwa [Nat.mod_eq_of_lt hlt] at hcut
    · have hfew := himage.length_lt
      have hle := Nat.mod_le number.toNat (2 ^ 32)
      exact hcut.of_no_section hnone (by omega)

/-- The options of a session on an x86-64 machine, if no others are asked for. -/
def plainOptions : Options := { host := .x86_64 }

/-- An image with one section of code. -/
def soleImage : Image :=
  Image.ofParts 0x1000007 3 1 0 .little
    [⟨1, "__TEXT", "__text", 0x1000, 1, 0, 0, 0, 0, 0x80000000, [0xc3], []⟩]
    [⟨"_main", 0xf, 1, 0, 0x1000⟩]

theorem sole_sections_answer_by_number :
    soleImage.Addressable ∧ AnswersAs soleImage plainOptions [] 2 2 ∧
    AnswersAs soleImage plainOptions [] 0x100000001 1 := by
  have himage : soleImage.Addressable := Image.ofParts_addressable _ _ _ _ _ _ (by decide)
  have hsecond := (sections_answer_by_number_iff himage plainOptions [] 2).2
  have hpast := (sections_answer_by_number_iff himage plainOptions [] 0x100000001).1
  exact ⟨himage, hsecond.mpr (.inl (by decide)), hpast⟩

/-- The number 2 ^ 32 + 1 is not refused: its page and table are those of section 1, which is also
what its numeral is found to mean. -/
theorem number_past_word_answered :
    soleImage.Addressable ∧ ¬ AnswersAs soleImage plainOptions [] 0x100000001 0x100000001 ∧
    (start soleImage plainOptions).findSection? "4294967297" = some 1 := by
  have himage : soleImage.Addressable := Image.ofParts_addressable _ _ _ _ _ _ (by decide)
  have hcut : AnswersAs soleImage plainOptions [] 0x100000001 1 :=
    answersAs_remainder himage.numbered
  refine ⟨himage, fun hnumber => ?_, ?_⟩
  · have hrefused := hnumber.table_iff.mpr (.inr (by decide))
    exact absurd (hcut.table_iff.mp hrefused) (by decide)
  · exact hcut.find_eq

end Numbers

end Session

end MachInspect
