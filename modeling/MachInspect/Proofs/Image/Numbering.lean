-- SUMMARY: Sections carry the number of their position, however an image was made.
import MachInspect.Proofs.Image.Reading

/-!
# Section numbers

Both ways to make an image, from decoded parts and from the bytes of a file, number the sections by
position, from one. Whatever names a section by its number relies on this.
-/
namespace MachInspect

/-- Each section carries the number of its position, from one. -/
def NumberedFrom (before : Nat) (sections : List Section) : Prop :=
  ∀ i s, sections[i]? = some s → s.index = before + i + 1

theorem NumberedFrom.append {before : Nat} {sections more : List Section}
    (h : NumberedFrom before sections) (hmore : NumberedFrom (before + sections.length) more) :
    NumberedFrom before (sections ++ more) := by
  intro i s hi
  rcases Nat.lt_or_ge i sections.length with hlt | hge
  · rw [List.getElem?_append_left hlt] at hi
    exact h i s hi
  · rw [List.getElem?_append_right hge] at hi
    have := hmore _ s hi
    omega

theorem NumberedFrom.map_index {before : Nat} {sections : List Section}
    (h : NumberedFrom before sections) :
    sections.map Section.index = List.range' (before + 1) sections.length := by
  refine List.ext_getElem (by simp) fun i hi _ => ?_
  rw [List.length_map] at hi
  have hindex := h i sections[i] (List.getElem?_eq_getElem hi)
  rw [List.getElem_map, List.getElem_range']
  omega

namespace Image

/-- Every section of the image carries the number of its position. -/
def Numbered (image : Image) : Prop := NumberedFrom 0 image.sections

theorem Numbered.index_eq {image : Image} (h : image.Numbered) {i : Nat} {s : Section}
    (hi : image.sections[i]? = some s) : s.index = i + 1 := by
  have := h i s hi
  omega

theorem ofParts_numbered (cpuType cpuSubtype fileType flags : UInt32) (order : ByteOrder)
    (sections : List Section) (symbols : List Symbol) :
    (ofParts cpuType cpuSubtype fileType flags order sections symbols).Numbered := by
  intro i s hi
  obtain ⟨t, -, rfl⟩ : ∃ t, sections[i]? = some t ∧ { t with index := i + 1 } = s := by
    simpa [ofParts, numberSections] using hi
  simp

theorem readSections_numbered (src : Source) (wide : Bool) (before : Nat) (headers : List Bytes) :
    NumberedFrom before (headers.mapIdx fun i => readSection src wide (before + i + 1)) := by
  intro i s hi
  obtain ⟨entry, -, rfl⟩ : ∃ entry, headers[i]? = some entry ∧
      readSection src wide (before + i + 1) entry = s := by
    simpa using hi
  rfl

/-- Only segment commands bring sections, and those are numbered after the ones before. -/
theorem Brings.numbered {src : Source} {body : Bytes} {c c' : Contents}
    (hc : NumberedFrom 0 c.sections) (h : Brings src body c c') : NumberedFrom 0 c'.sections := by
  cases h with
  | segment => exact hc.append (by simpa using readSections_numbered src _ c.sections.length _)
  | other => exact hc

theorem readThin_numbered {wide : Bool} {file : Bytes} {image : Image}
    (h : readThin wide file = .ok image) : image.Numbered := by
  obtain ⟨-, -, c, hread, rfl⟩ := readThin_eq_ok_iff.mp h
  have hempty : NumberedFrom 0 ({} : Contents).sections := fun _ _ hi => by simp at hi
  exact readCommands_invariant Brings.numbered hempty hread

/-- The sections of every file that can be read are numbered by position. -/
theorem read_numbered {host : Arch} {file : Bytes} {image : Image}
    (h : read host file = .ok image) : image.Numbered := by
  obtain ⟨wide, inner, -, hread⟩ := read_eq_ok_iff.mp h
  exact readThin_numbered hread

/-! ## Numbers of 32 bits -/

section Words

variable {src : Source} {wide : Bool} {file body rest : Bytes} {count : Nat} {c c' : Contents}
  {image : Image}

/-- Every section has a header in its command. -/
theorem length_le_of_sectionHeaders? {order : ByteOrder} {headers : List Bytes}
    (h : sectionHeaders? order wide body = some headers) : headers.length ≤ body.length := by
  rw [length_of_sectionHeaders? h]
  refine Nat.le_of_not_lt fun hlt => ?_
  have hsize : 1 ≤ sectionHeaderSize wide := by cases wide <;> decide
  have hmul := Nat.mul_le_mul_left (sectionCount order wide body) hsize
  have hdrop := List.length_drop (i := headersStart wide) (l := body)
  rw [sectionHeaders?, table?_of_lt (by omega) (by omega)] at h
  cases h

theorem Brings.length_sections_le (h : Brings src body c c') :
    c'.sections.length ≤ c.sections.length + body.length := by
  cases h with
  | segment headers_eq =>
    have hheaders := length_le_of_sectionHeaders? headers_eq
    simpa using hheaders
  | other => exact Nat.le_add_right _ _

theorem length_sections_readCommands (h : readCommands src count rest c = .ok c') :
    c'.sections.length ≤ c.sections.length + rest.length := by
  induction count generalizing rest c with
  | zero =>
    cases h
    exact Nat.le_add_right _ _
  | succ count ih =>
    obtain ⟨body, more, next, rfl, -, hread, hrest⟩ := readCommands_succ_ok_iff.mp h
    have hbody := (readCommand_brings hread).length_sections_le
    have hmore := ih hrest
    rw [List.length_append]
    omega

/-- Sections carry the numbers of their positions, and 32 bits are enough for every number. -/
structure Addressable (image : Image) : Prop where
  numbered : image.Numbered
  length_lt : image.sections.length < 2 ^ 32

/-- All section headers are in the commands, whose length is a number of 32 bits. -/
theorem readThin_addressable (h : readThin wide file = .ok image) : image.Addressable := by
  refine ⟨readThin_numbered h, ?_⟩
  obtain ⟨-, -, c, hread, rfl⟩ := readThin_eq_ok_iff.mp h
  have hsections := length_sections_readCommands hread
  have harea : (commandArea wide file).length ≤ commandBytes file := List.length_take_le _ _
  have hword : commandBytes file < 2 ^ 32 := UInt32.toNat_lt _
  change c.sections.length < 2 ^ 32
  simp only [List.length_nil, Nat.zero_add] at hsections
  omega

theorem read_addressable {host : Arch} (h : read host file = .ok image) : image.Addressable := by
  obtain ⟨wide, inner, -, hread⟩ := read_eq_ok_iff.mp h
  exact readThin_addressable hread

theorem ofParts_addressable (cpuType cpuSubtype fileType flags : UInt32) (order : ByteOrder)
    {sections : List Section} (symbols : List Symbol) (h : sections.length < 2 ^ 32) :
    (ofParts cpuType cpuSubtype fileType flags order sections symbols).Addressable := by
  refine ⟨ofParts_numbered _ _ _ _ _ _ _, ?_⟩
  simpa [ofParts, numberSections] using h

end Words

end Image

end MachInspect
