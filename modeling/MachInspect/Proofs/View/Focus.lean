-- SUMMARY: Views are made without highlighting.
import MachInspect.Proofs.View.Places

/-!
# Highlighting

Only `RowView.focus` highlights rows: no row that a view is made with is focused, whatever it shows.
-/
namespace MachInspect.View

open Text Value

/-- No row is highlighted. -/
def Unfocused (rows : List Row) : Prop := ∀ row ∈ rows, row.focused = false

theorem unfocused_nil : Unfocused [] := List.forall_mem_nil _

theorem unfocused_cons {row : Row} {rows : List Row} (h : row.focused = false)
    (hrows : Unfocused rows) : Unfocused (row :: rows) :=
  List.forall_mem_cons.mpr ⟨h, hrows⟩

/-- Adding relocations does not highlight anything. -/
theorem Unfocused.attach {rows : List Row} (h : Unfocused rows) (relocs : List RelocRow) :
    Unfocused (rows.map fun row => row.attach row.length relocs) := by
  intro row hrow
  obtain ⟨bare, hbare, rfl⟩ := List.mem_map.mp hrow
  exact h bare hbare

/-! ## Regions -/

/-- Each piece of bytes becomes a row of its own. -/
theorem exists_of_mem_layOut {text : Bytes → String} {address : UInt64} {pieces : List Bytes}
    {row : Row} (h : row ∈ layOut text address pieces) :
    ∃ start piece, row = Row.ofBytes start piece (text piece) := by
  induction pieces generalizing address with
  | nil => cases h
  | cons piece rest ih =>
    rcases List.mem_cons.mp h with rfl | hrest
    · exact ⟨address, piece, rfl⟩
    · exact ih hrest

theorem exists_of_mem_zeroRows {budget : Nat} {address : UInt64} {length : Nat} {row : Row}
    (h : row ∈ zeroRows budget address length) :
    ∃ start length text, row = Row.ofZeros start length text := by
  induction budget generalizing address length with
  | zero => cases h
  | succ budget ih =>
    unfold zeroRows at h
    split at h
    · cases h
    · split at h
      · rcases List.mem_cons.mp h with rfl | hrest
        · exact ⟨_, _, _, rfl⟩
        · exact ih hrest
      · obtain rfl := List.mem_singleton.mp h
        exact ⟨_, _, _, rfl⟩

theorem unfocused_layOut (text : Bytes → String) (address : UInt64) (pieces : List Bytes) :
    Unfocused (layOut text address pieces) := by
  intro row hrow
  obtain ⟨start, piece, rfl⟩ := exists_of_mem_layOut hrow
  rfl

theorem unfocused_zeroRows (budget : Nat) (address : UInt64) (length : Nat) :
    Unfocused (zeroRows budget address length) := by
  intro row hrow
  obtain ⟨start, length, text, rfl⟩ := exists_of_mem_zeroRows hrow
  rfl

theorem unfocused_codeRows (decode : Code.Decoder) (relocs : List RelocRow) (address : UInt64)
    (data : Bytes) : Unfocused (codeRows decode relocs address data) := by
  intro row hrow
  obtain ⟨instruction, _, rfl⟩ := List.mem_map.mp hrow
  rfl

theorem unfocused_dataRows (relocs : List RelocRow) (address : UInt64) (data : Bytes) :
    Unfocused (dataRows relocs address data) :=
  (unfocused_layOut _ _ _).attach relocs

theorem unfocused_byteRows (ctx : Context) (semantic : Semantic) (relocs : List RelocRow)
    (address : UInt64) (data : Bytes) :
    Unfocused (byteRows ctx semantic relocs address data).rows := by
  cases semantic with
  | code =>
    unfold byteRows
    cases Code.decoder? ctx.index with
    | some decode => exact unfocused_codeRows decode relocs address data
    | none => exact unfocused_dataRows relocs address data
  | float128 =>
    unfold byteRows
    cases ctx.longDouble? with
    | some layout => exact unfocused_layOut _ _ _
    | none => exact unfocused_layOut _ _ _
  | data | ehFrame | declared => exact unfocused_dataRows relocs address data
  | _ => exact unfocused_layOut _ _ _

theorem unfocused_decode (ctx : Context) (semantic : Semantic) (relocs : List RelocRow)
    (address : UInt64) (contents : Contents) :
    Unfocused (contents.decode ctx semantic relocs address).rows := by
  cases contents with
  | present data => exact unfocused_byteRows ctx semantic relocs address data
  | zeroFill length => exact unfocused_zeroRows _ _ _

/-! ## Views -/

theorem unfocused_declaredRows (ctx : Context) (name : String) (declaration : Declaration)
    (relocs : List RelocRow) (address : UInt64) (contents : Contents) :
    Unfocused (declaredRows ctx name declaration relocs address contents).rows := by
  cases declaration with
  | found type => exact unfocused_cons rfl unfocused_nil
  | _ => exact unfocused_decode ctx .data relocs address contents

theorem unfocused_sectionView (ctx : Context) (s : Section) (semantic : Semantic) :
    Unfocused (sectionView ctx s semantic).rows :=
  unfocused_decode ctx _ _ _ _

theorem unfocused_symbolView {ctx : Context} {number : UInt64} {semantic : Semantic}
    {declaration : Declaration} {view : RowView}
    (h : symbolView ctx number semantic declaration = .ok view) : Unfocused view.rows := by
  obtain ⟨place, -, rfl⟩ := symbolView_eq_ok_iff.mp h
  unfold Place.view
  dsimp only
  split
  · exact unfocused_declaredRows ctx _ _ _ _ _
  · exact unfocused_decode ctx _ _ _ _

end MachInspect.View
