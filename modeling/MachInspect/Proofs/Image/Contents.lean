-- SUMMARY: Sections hold what the chosen file has at the places they name, or nothing.
import MachInspect.Proofs.Image.Numbering

/-!
# Contents of sections

What a section holds depends on its own header and on the file alone: the bytes and relocations at
the places that the header names, or nothing if these places are not in the file. Segment commands
list the sections by number, each of them once and in order.
-/
namespace MachInspect

/-- The section holds the bytes and as many relocations as the file has at the places it names. -/
structure Section.HeldFrom (s : Section) (file : Bytes) : Prop where
  data_eq : s.data =
    if s.isZeroFill then []
    else if s.offset.toNat + s.size.toNat ≤ file.length then
      (file.drop s.offset.toNat).take s.size.toNat
    else []
  length_relocs : s.relocs.length =
    if s.relocOffset.toNat + s.relocCount.toNat * 8 ≤ file.length then s.relocCount.toNat else 0

/-- The numbers of the sections that a command lists. -/
def LoadCommand.sections (command : LoadCommand) : List Nat :=
  match command.directive with
  | .segment segment => segment.sections
  | _ => []

/-- A segment lists as many sections as it counts. -/
def LoadCommand.Counted (command : LoadCommand) : Prop :=
  ∀ segment, command.directive = .segment segment →
    segment.sections.length = segment.sectionCount.toNat

namespace Image

/-! ## Section headers -/

theorem slice?_getD (data : Bytes) (start len : Nat) :
    (slice? data start len).getD [] =
      if start + len ≤ data.length then (data.drop start).take len else [] := by
  unfold slice?
  split <;> rfl

theorem length_table?_getD (data : Bytes) (offset count size : Nat) :
    ((table? data offset count size).getD []).length =
      if offset + count * size ≤ data.length then count else 0 := by
  split
  · rename_i hle
    rw [table?_of_le hle, Option.getD_some, length_entries]
  · rename_i hlt
    by_cases hcount : count = 0
    · rw [table?, if_pos hcount]
      rfl
    · rw [table?_of_lt hcount (Nat.lt_of_not_le hlt)]
      rfl

theorem readSection_heldFrom (src : Source) (wide : Bool) (index : Nat) (entry : Bytes) :
    (readSection src wide index entry).HeldFrom src.file where
  data_eq := by
    rw [← slice?_getD]
    rfl
  length_relocs := by
    rw [← length_table?_getD]
    exact List.length_map _

/-! ## Runs of commands -/

section Runs

variable {src : Source} {file body : Bytes} {c c' : Contents}

/-- The commands list the sections that they count, in order, and these hold what the file has. -/
structure Contents.Sound (file : Bytes) (c : Contents) : Prop where
  counted : ∀ command ∈ c.commands, command.Counted
  listed : c.commands.flatMap LoadCommand.sections = List.range' 1 c.sections.length
  held : ∀ s ∈ c.sections, s.HeldFrom file

/-- What one command brings keeps the contents sound. -/
theorem Brings.sound (hc : c.Sound src.file) (h : Brings src body c c') : c'.Sound src.file where
  counted := by
    cases h with
    | segment headers_eq count_eq sections_eq =>
      refine List.forall_mem_append.mpr ⟨hc.counted, List.forall_mem_singleton.mpr ?_⟩
      rintro _ ⟨⟩
      rw [sections_eq, List.length_map, List.length_mapIdx, length_of_sectionHeaders? headers_eq,
        count_eq]
    | other not_segment =>
      refine List.forall_mem_append.mpr ⟨hc.counted, List.forall_mem_singleton.mpr ?_⟩
      exact fun segment h => absurd h (not_segment segment)
  listed := by
    cases h with
    | @segment wide headers segment _ _ sections_eq =>
      -- The numbers of the new sections go on where those of the others end.
      have hnumbers : segment.sections = List.range' (1 + c.sections.length) headers.length := by
        have hmap := (readSections_numbered src wide c.sections.length headers).map_index
        rw [sections_eq, hmap, List.length_mapIdx, Nat.add_comm 1]
      rw [List.flatMap_append, hc.listed, List.flatMap_singleton, List.length_append,
        List.length_mapIdx, ← List.range'_append_1]
      exact congrArg _ hnumbers
    | @other directive _ not_segment =>
      have hnone (tag size : UInt32) : LoadCommand.sections ⟨tag, size, directive⟩ = [] := by
        cases directive with
        | segment segment => exact absurd rfl (not_segment segment)
        | _ => rfl
      rw [List.flatMap_append, hc.listed, List.flatMap_singleton, hnone, List.append_nil]
  held := by
    cases h with
    | segment =>
      intro s hs
      rcases List.mem_append.mp hs with hold | hnew
      · exact hc.held s hold
      · obtain ⟨_, _, rfl⟩ := List.mem_mapIdx.mp hnew
        exact readSection_heldFrom ..
    | other => exact hc.held

end Runs

/-! ## Files -/

section Files

variable {wide : Bool} {file : Bytes} {image : Image}

/-- The image has the sections of the thin file, numbered and listed in order. -/
structure SectionsFrom (image : Image) (file : Bytes) : Prop where
  index_eq : ∀ i s, image.sections[i]? = some s → s.index = i + 1
  counted : ∀ command ∈ image.commands, command.Counted
  listed : image.commands.flatMap LoadCommand.sections = List.range' 1 image.sections.length
  held : ∀ s ∈ image.sections, s.HeldFrom file

theorem readThin_sectionsFrom (h : readThin wide file = .ok image) : image.SectionsFrom file := by
  have hnumbered := readThin_numbered h
  obtain ⟨-, -, c, hread, rfl⟩ := readThin_eq_ok_iff.mp h
  have hempty : Contents.Sound file {} := ⟨by simp, rfl, by simp⟩
  have hsound : c.Sound (thinSource wide file).file :=
    readCommands_invariant Brings.sound hempty hread
  exact ⟨fun _ _ => hnumbered.index_eq, hsound.counted, hsound.listed, hsound.held⟩

/-- Every image that is read has its sections from the file that is chosen, and a file can be read
exactly if the header and the commands of the chosen one are whole. So a section, a relocation table
or a symbol table that is not in the file is never an error. -/
theorem sections_read_from_chosen_file (host : Arch) (file : Bytes) :
    (∀ image, read host file = .ok image →
      ∃ wide inner, Chosen host file wide inner ∧ image.SectionsFrom inner) ∧
    ((∃ image, read host file = .ok image) ↔
      ∃ wide inner, Chosen host file wide inner ∧ Loadable wide inner) := by
  refine ⟨fun image h => ?_, read_ok_iff⟩
  obtain ⟨wide, inner, hchosen, hread⟩ := read_eq_ok_iff.mp h
  exact ⟨wide, inner, hchosen, readThin_sectionsFrom hread⟩

/-- A fat file with one thin file in big-endian order. Of its three sections, the first one is in
the file, the second one and its relocations are not, and the third one is zero-fill. Its symbols
are not in the file either. -/
def strayFile : Bytes :=
  List.flatMap (ByteOrder.big.encode 4)
    ([0xcafebabe, 1, 18, 0, 28, 312, 2] ++ [0xfeedface, 18, 0, 1, 2, 284, 0] ++
      [1, 260, 0, 0, 0, 0, 0, 16, 0, 0, 7, 7, 3, 0] ++
      [0, 0, 0, 0, 0, 0, 0, 0, 0, 4, 0, 0, 24, 1, 0, 0, 0] ++
      [0, 0, 0, 0, 0, 0, 0, 0, 4, 8, 0x1000, 0, 0x2000, 3, 0, 0, 0] ++
      [0, 0, 0, 0, 0, 0, 0, 0, 12, 4, 0, 0, 0, 0, 1, 0, 0] ++
      [2, 24, 0x3000, 5, 0x4000, 9])

theorem stray_sections_read_from_chosen_file :
    ∃ image, read .x86_64 strayFile = .ok image ∧
      (image.sections.map fun s => (s.data, s.relocs.length)) =
        [([0xfe, 0xed, 0xfa, 0xce], 1), ([], 0), ([], 0)] ∧
      image.symbols = [] ∧
      ∃ wide inner, Chosen .x86_64 strayFile wide inner ∧ image.SectionsFrom inner := by
  have hread : (read .x86_64 strayFile).toOption.map (fun image =>
      (image.sections.map fun s => (s.data, s.relocs.length), image.symbols)) =
      some ([([0xfe, 0xed, 0xfa, 0xce], 1), ([], 0), ([], 0)], []) := by decide +kernel
  cases hok : read .x86_64 strayFile with
  | error e =>
    rw [hok] at hread
    cases hread
  | ok image =>
    rw [hok] at hread
    obtain ⟨hsections, hsymbols⟩ := Prod.mk.inj (Option.some.inj hread)
    exact ⟨image, rfl, hsections, hsymbols,
      (sections_read_from_chosen_file .x86_64 strayFile).1 image hok⟩

end Files

end Image

end MachInspect
