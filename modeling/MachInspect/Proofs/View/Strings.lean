-- SUMMARY: The strings of a section can be read back from its rows.
import MachInspect.Proofs.Text.Literals
import MachInspect.Proofs.Text.Separators
import MachInspect.Proofs.View.Tiling

/-!
# Rows of strings

Bytes that are shown as strings have one row for each string with its terminator. Only the last
string may lack it, and then its literal lacks the closing quote. A literal shows one string only,
and so the texts of the rows determine all bytes.
-/
namespace MachInspect.View

open Text

/-! ## Strings and their terminators -/

section Pieces

variable {run rest piece piece' data : Bytes} {pieces pieces' : List Bytes}

/-- A string with its terminator. -/
def IsTerminated (piece : Bytes) : Prop := ∃ run, 0 ∉ run ∧ piece = run ++ [0]

/-- Bytes cut after each NUL; what follows the last one is a string without a terminator. -/
inductive Strings : Bytes → List Bytes → Prop where
  | nil : Strings [] []
  | last {run : Bytes} : 0 ∉ run → Strings run [run]
  | cons {run rest : Bytes} {pieces : List Bytes} : 0 ∉ run → Strings rest pieces →
      Strings (run ++ 0 :: rest) ((run ++ [0]) :: pieces)

theorem terminated_of_nul (hrun : 0 ∉ run) (rest : Bytes) :
    Quoted.terminated (run ++ 0 :: rest) = (Quoted.string run, run.length + 1) := by
  rw [Quoted.terminated, takeWhile_append_sep hrun, if_pos (by simp)]

theorem terminated_of_notMem (hrun : 0 ∉ run) :
    Quoted.terminated run = (String.ofList (Quoted.opened run), run.length) := by
  rw [Quoted.terminated, takeWhile_of_notMem hrun, if_neg (Nat.lt_irrefl _)]

theorem strings_stringPieces (data : Bytes) : Strings data (stringPieces data) := by
  fun_induction stringPieces data with
  | case1 => exact .nil
  | case2 b rest length ih =>
    have hcut : (b :: rest).take length ++ rest.drop (length - 1) = b :: rest :=
      take_append_drop_tail b rest (one_le_terminated b rest)
    by_cases hzero : 0 ∈ b :: rest
    · obtain ⟨run, after, hdata, hrun⟩ := List.eq_append_cons_of_mem hzero
      have hlength : length = (run ++ [0]).length := by
        simp only [length, hdata, terminated_of_nul hrun, List.length_append, List.length_singleton]
      have hsplit : b :: rest = (run ++ [0]) ++ after := by simpa using hdata
      have hpiece : (b :: rest).take length = run ++ [0] := by
        rw [hsplit, hlength, List.take_left]
      rw [hpiece] at hcut ⊢
      obtain rfl : rest.drop (length - 1) = after :=
        List.append_cancel_left (hcut.trans hsplit)
      rw [hdata]
      exact .cons hrun ih
    · have hlength : length = (b :: rest).length := by
        simp only [length, terminated_of_notMem hzero]
      have hnothing : rest.drop (length - 1) = [] := by
        rw [hlength, List.length_cons, Nat.add_sub_cancel, List.drop_length]
      rw [hnothing, List.append_nil] at hcut
      rw [hnothing, hcut, stringPieces]
      exact .last hzero

/-- Every piece but the last has its terminator, and none has a NUL before its end. -/
theorem Strings.getElem? (h : Strings data pieces) {k : Nat} (hpiece : pieces[k]? = some piece) :
    IsTerminated piece ∨ 0 ∉ piece ∧ k + 1 = pieces.length := by
  induction h generalizing k with
  | nil => simp at hpiece
  | @last run hrun =>
    obtain ⟨rfl, rfl⟩ : k = 0 ∧ run = piece := by simpa [List.getElem?_singleton] using hpiece
    exact .inr ⟨hrun, rfl⟩
  | @cons run rest pieces hrun _ ih =>
    cases k with
    | zero =>
      obtain rfl : run ++ [0] = piece := by simpa using hpiece
      exact .inl ⟨run, hrun, rfl⟩
    | succ k =>
      rcases ih (by simpa using hpiece) with hterminated | ⟨hpiece, hlast⟩
      · exact .inl hterminated
      · exact .inr ⟨hpiece, by simpa using hlast⟩

/-- The text of a piece shows its string, with the closing quote for the terminator. -/
theorem spells_piece (h : IsTerminated piece ∨ 0 ∉ piece) :
    ∃ run closed, Quoted.Spells (Quoted.terminated piece).1.toList.tail run closed ∧
      piece = run ++ if closed then [0] else [] := by
  rcases h with ⟨run, hrun, rfl⟩ | hrun
  · refine ⟨run, true, ?_, rfl⟩
    rw [terminated_of_nul hrun, Quoted.toList_string]
    exact Quoted.spells_closed run
  · refine ⟨piece, false, ?_, (List.append_nil piece).symm⟩
    rw [terminated_of_notMem hrun, String.toList_ofList]
    exact Quoted.spells_opened piece

theorem piece_eq_of_text_eq (h : IsTerminated piece ∨ 0 ∉ piece)
    (h' : IsTerminated piece' ∨ 0 ∉ piece')
    (htext : (Quoted.terminated piece).1 = (Quoted.terminated piece').1) : piece = piece' := by
  obtain ⟨run, closed, hspells, rfl⟩ := spells_piece h
  obtain ⟨run', closed', hspells', rfl⟩ := spells_piece h'
  rw [htext] at hspells
  obtain ⟨rfl, rfl⟩ := hspells.unique hspells'
  rfl

theorem pieces_eq_of_texts_eq (h : ∀ piece ∈ pieces, IsTerminated piece ∨ 0 ∉ piece)
    (h' : ∀ piece ∈ pieces', IsTerminated piece ∨ 0 ∉ piece)
    (htexts : (pieces.map fun piece => (Quoted.terminated piece).1) =
      pieces'.map fun piece => (Quoted.terminated piece).1) : pieces = pieces' := by
  induction pieces generalizing pieces' with
  | nil => simpa using htexts.symm
  | cons piece pieces ih =>
    cases pieces' with
    | nil => simp at htexts
    | cons piece' pieces' =>
      obtain ⟨htext, hrest⟩ := List.cons.inj htexts
      have hpiece : piece = piece' :=
        piece_eq_of_text_eq (h piece List.mem_cons_self) (h' piece' List.mem_cons_self) htext
      have hpieces : pieces = pieces' :=
        ih (fun p hp => h p (List.mem_cons_of_mem _ hp))
          (fun p hp => h' p (List.mem_cons_of_mem _ hp)) hrest
      rw [hpiece, hpieces]

end Pieces

/-! ## Rows -/

section Rows

variable {address address' : UInt64} {data data' : Bytes}

theorem map_bytes_layOut (text : Bytes → String) (address : UInt64) (pieces : List Bytes) :
    (layOut text address pieces).map Row.bytes = pieces := by
  induction pieces generalizing address with
  | nil => rfl
  | cons piece rest ih => rw [layOut, List.map_cons, ih, Row.ofBytes]

theorem map_text_layOut (text : Bytes → String) (address : UInt64) (pieces : List Bytes) :
    (layOut text address pieces).map Row.text = pieces.map text := by
  induction pieces generalizing address with
  | nil => rfl
  | cons piece rest ih => rw [layOut, List.map_cons, ih, Row.ofBytes, List.map_cons]

/-- A row of bytes shows the text of its bytes. -/
theorem text_eq_of_mem_layOut {text : Bytes → String} {pieces : List Bytes} {row : Row}
    (h : row ∈ layOut text address pieces) : row.text = text row.bytes := by
  induction pieces generalizing address with
  | nil => simp [layOut] at h
  | cons piece rest ih =>
    rcases List.mem_cons.mp h with rfl | hrest
    · rfl
    · exact ih hrest

/-- The row of a string, with its terminator or at the end of the data. -/
inductive StringRow (row : Row) (isLast : Prop) : Prop where
  /-- The row covers a string with its NUL and shows the literal of the string. -/
  | terminated (run : Bytes) : 0 ∉ run → row.bytes = run ++ [0] → row.text = Quoted.string run →
      StringRow row isLast
  /-- The row covers a string without a NUL and shows its literal without the closing quote. -/
  | unterminated : isLast → 0 ∉ row.bytes →
      row.text.push Quoted.doubleQuote = Quoted.string row.bytes →
      Quoted.bareQuotes 0 row.text.toList = [0] → StringRow row isLast

theorem stringRow_of_getElem? {k : Nat} {row : Row}
    (hrow : (stringRows address data)[k]? = some row) :
    StringRow row (k + 1 = (stringRows address data).length) := by
  have hlength : (stringRows address data).length = (stringPieces data).length := by
    rw [← map_bytes_layOut _ address (stringPieces data), List.length_map]
    rfl
  have hpiece : (stringPieces data)[k]? = some row.bytes := by
    rw [← map_bytes_layOut (fun piece => (Quoted.terminated piece).1) address (stringPieces data),
      List.getElem?_map]
    exact congrArg (Option.map Row.bytes) hrow
  have htext : row.text = (Quoted.terminated row.bytes).1 :=
    text_eq_of_mem_layOut (List.mem_of_getElem? hrow)
  rw [hlength]
  rcases (strings_stringPieces data).getElem? hpiece with ⟨run, hrun, hbytes⟩ | ⟨hrun, hlast⟩
  · rw [hbytes, terminated_of_nul hrun] at htext
    exact .terminated run hrun hbytes htext
  · rw [terminated_of_notMem hrun] at htext
    refine .unterminated hlast hrun ?_ ?_
    · rw [htext, Quoted.string, String.push_eq_append, String.ofList_append]
      rfl
    · rw [htext, String.toList_ofList, Quoted.bareQuotes_opened]

theorem data_eq_of_texts_eq
    (h : (stringRows address data).map Row.text = (stringRows address' data').map Row.text) :
    data = data' := by
  have hpiece (data piece : Bytes) (hmem : piece ∈ stringPieces data) :
      IsTerminated piece ∨ 0 ∉ piece := by
    obtain ⟨k, hk⟩ := List.mem_iff_getElem?.mp hmem
    exact ((strings_stringPieces data).getElem? hk).imp_right And.left
  rw [stringRows, stringRows, map_text_layOut, map_text_layOut] at h
  have hpieces : stringPieces data = stringPieces data' :=
    pieces_eq_of_texts_eq (hpiece data) (hpiece data') h
  rw [← (cutInto_stringPieces data).flatten_eq, hpieces, (cutInto_stringPieces data').flatten_eq]

/-- Strings are shown without loss. A literal is quoted at both ends and nowhere else, has visible
characters only, and belongs to one byte string. The rows cover the bytes in order, one string with
its NUL each; only the last may lack the NUL, and then it lacks the closing quote. The texts of the
rows determine the bytes. -/
theorem strings_shown_without_loss :
    (∀ data, Quoted.IsLiteral (Quoted.string data).toList) ∧
    Function.Injective Quoted.string ∧
    (∀ address data, (stringRows address data).flatMap Row.bytes = data ∧
      ∀ k row, (stringRows address data)[k]? = some row →
        StringRow row (k + 1 = (stringRows address data).length)) ∧
    ∀ address address' data data',
      (stringRows address data).map Row.text = (stringRows address' data').map Row.text →
        data = data' := by
  refine ⟨Quoted.isLiteral_string, Quoted.string_injective, fun address data => ⟨?_, ?_⟩, ?_⟩
  · have hbytes := (cutInto_stringPieces data).flatten_eq
    rwa [← map_bytes_layOut (fun piece => (Quoted.terminated piece).1) address (stringPieces data)]
      at hbytes
  · exact fun _ _ hrow => stringRow_of_getElem? hrow
  · exact fun _ _ _ _ htexts => data_eq_of_texts_eq htexts

end Rows

end MachInspect.View
