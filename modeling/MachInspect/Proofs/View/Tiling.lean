-- SUMMARY: The rows of a section follow each other from its first byte to its last.
import Mathlib.Algebra.GroupWithZero.Nat
import MachInspect.View.Section

/-!
# Rows tile sections

However a section is shown, each of its bytes is in one row, and the rows follow each other without
a gap. `ShowBytes` says so of bytes of the file and `ShowZeros` of zeros that the file leaves out.
Disassembly has rows of this kind for every decoder, whatever texts and lengths it gives.
-/
namespace MachInspect.View

open Text Value

/-! ## Rows that follow each other -/

section Following

variable {start : Nat} {row : Row} {rows : List Row} {data : Bytes}

theorem toNat_ofNat_of_add_lt {a : UInt64} {n : Nat} (h : a.toNat + n < 2 ^ 64) :
    (UInt64.ofNat n).toNat = n :=
  UInt64.toNat_ofNat_of_lt' (by simp only [UInt64.size]; omega)

theorem toNat_add_ofNat {a : UInt64} {n : Nat} (h : a.toNat + n < 2 ^ 64) :
    (a + UInt64.ofNat n).toNat = a.toNat + n := by
  rw [UInt64.toNat_add, toNat_ofNat_of_add_lt h, Nat.mod_eq_of_lt h]

/-- The number of bytes that some rows stand for. -/
def spanned (rows : List Row) : Nat := (rows.map fun row => row.length.toNat).sum

@[simp] theorem spanned_nil : spanned [] = 0 := rfl

@[simp] theorem spanned_cons (row : Row) (rows : List Row) :
    spanned (row :: rows) = row.length.toNat + spanned rows := by
  simp [spanned]

/-- No row is empty, and each stands where the rows before it end. -/
structure Follow (start : Nat) (rows : List Row) : Prop where
  nonempty : ∀ row ∈ rows, 0 < row.length.toNat
  address_eq : ∀ (k : Nat) (row : Row), rows[k]? = some row →
    row.address.toNat = start + spanned (rows.take k)

theorem follow_nil : Follow start [] := by
  constructor <;> simp

theorem Follow.cons (haddress : row.address.toNat = start) (hlength : 0 < row.length.toNat)
    (h : Follow (start + row.length.toNat) rows) : Follow start (row :: rows) := by
  constructor
  · simpa using ⟨hlength, h.nonempty⟩
  · intro k row' hrow'
    cases k with
    | zero =>
      obtain rfl : row = row' := by simpa using hrow'
      simpa using haddress
    | succ k =>
      rw [h.address_eq k row' (by simpa using hrow')]
      simp [Nat.add_assoc]

/-- Rows that keep their places and lengths still follow each other. -/
theorem Follow.map (h : Follow start rows) {f : Row → Row}
    (haddress : ∀ row, (f row).address = row.address)
    (hlength : ∀ row, (f row).length = row.length) : Follow start (rows.map f) := by
  refine ⟨by simpa [hlength] using h.nonempty, fun k row hrow => ?_⟩
  rw [List.getElem?_map] at hrow
  obtain ⟨bare, hbare, rfl⟩ := Option.map_eq_some_iff.mp hrow
  simpa [spanned, ← List.map_take, Function.comp_def, haddress, hlength] using
    h.address_eq k bare hbare

/-- The rows show `data`, which stands at `start`, byte for byte. -/
structure ShowBytes (start : Nat) (data : Bytes) (rows : List Row) : Prop
    extends Follow start rows where
  bytes_eq : rows.flatMap Row.bytes = data
  length_eq : ∀ row ∈ rows, row.length.toNat = row.bytes.length

theorem showBytes_nil : ShowBytes start [] [] :=
  ⟨follow_nil, rfl, by simp⟩

/-- A row of bytes comes before rows that stand right after it. -/
theorem ShowBytes.cons {address : UInt64} {piece : Bytes} {length : Nat} (text : String)
    (hlength : piece.length = length) (hpos : 0 < length)
    (hfits : address.toNat + length < 2 ^ 64)
    (h : ShowBytes (address + UInt64.ofNat length).toNat data rows) :
    ShowBytes address.toNat (piece ++ data) (Row.ofBytes address piece text :: rows) := by
  subst hlength
  have hrow : (Row.ofBytes address piece text).length.toNat = piece.length :=
    toNat_ofNat_of_add_lt hfits
  rw [toNat_add_ofNat hfits] at h
  refine ⟨.cons rfl (by rwa [hrow]) (by rw [hrow]; exact h.toFollow), ?_, ?_⟩
  · rw [List.flatMap_cons, h.bytes_eq]
    rfl
  · simpa using ⟨hrow, h.length_eq⟩

@[simp] theorem address_attach (length : UInt64) (relocs : List RelocRow) :
    (row.attach length relocs).address = row.address := rfl

@[simp] theorem bytes_attach (length : UInt64) (relocs : List RelocRow) :
    (row.attach length relocs).bytes = row.bytes := rfl

@[simp] theorem length_attach (length : UInt64) (relocs : List RelocRow) :
    (row.attach length relocs).length = row.length := rfl

/-- Relocations under the rows do not change what the rows show. -/
theorem ShowBytes.attach (h : ShowBytes start data rows) (relocs : List RelocRow) :
    ShowBytes start data (rows.map fun row => row.attach row.length relocs) := by
  refine ⟨h.toFollow.map (fun _ => rfl) (fun _ => rfl), ?_, by simpa using h.length_eq⟩
  simpa [List.flatMap_map] using h.bytes_eq

end Following

/-! ## Pieces -/

section Pieces

variable {data : Bytes}

/-- The pieces make up `data`, and none of them is empty. -/
structure CutInto (data : Bytes) (pieces : List Bytes) : Prop where
  flatten_eq : pieces.flatten = data
  nonempty : ∀ piece ∈ pieces, piece ≠ []

theorem cutInto_nil : CutInto [] [] := by
  constructor <;> simp

theorem CutInto.cons {piece : Bytes} {pieces : List Bytes} (hpiece : piece ≠ [])
    (h : CutInto data pieces) : CutInto (piece ++ data) (piece :: pieces) := by
  constructor
  · simp [h.flatten_eq]
  · simpa using ⟨hpiece, h.nonempty⟩

theorem cutInto_chunks {width : Nat} (hwidth : 0 < width) (data : Bytes) :
    CutInto data (chunks width data) := by
  fun_induction chunks width data with
  | case1 data hnone =>
    obtain rfl : data = [] := by
      rcases hnone with rfl | hnil
      · omega
      · exact hnil
    exact cutInto_nil
  | case2 data hsome ih =>
    have hpiece : data.take width ≠ [] := by
      simp only [ne_eq, List.take_eq_nil_iff]
      exact hsome
    have hcons := CutInto.cons hpiece ih
    rwa [List.take_append_drop] at hcons

/-- Some bytes, cut after the first `length` of them. -/
theorem take_append_drop_tail (b : UInt8) (rest : Bytes) {length : Nat} (h : 1 ≤ length) :
    (b :: rest).take length ++ rest.drop (length - 1) = b :: rest := by
  obtain ⟨n, rfl⟩ := Nat.exists_eq_add_of_le' h
  simp

/-- A string takes one byte at least. -/
theorem one_le_terminated (b : UInt8) (rest : Bytes) : 1 ≤ (Quoted.terminated (b :: rest)).2 := by
  simp only [Quoted.terminated]
  split <;> simp

theorem cutInto_stringPieces (data : Bytes) : CutInto data (stringPieces data) := by
  fun_induction stringPieces data with
  | case1 => exact cutInto_nil
  | case2 b rest length ih =>
    have hlength : 1 ≤ length := one_le_terminated b rest
    have hpiece : (b :: rest).take length ≠ [] := by
      simp only [ne_eq, List.take_eq_nil_iff, reduceCtorEq, or_false]
      omega
    have hcons := CutInto.cons hpiece ih
    rwa [take_append_drop_tail b rest hlength] at hcons

/-- Pieces that are laid out show what they make up. -/
theorem showBytes_layOut {pieces : List Bytes} {address : UInt64} (text : Bytes → String)
    (hcut : CutInto data pieces) (hfits : address.toNat + data.length < 2 ^ 64) :
    ShowBytes address.toNat data (layOut text address pieces) := by
  induction pieces generalizing address data with
  | nil =>
    obtain rfl := hcut.flatten_eq
    exact showBytes_nil
  | cons piece rest ih =>
    obtain ⟨rfl, hnonempty⟩ := hcut
    have hrest : CutInto rest.flatten rest :=
      ⟨rfl, fun p hp => hnonempty p (List.mem_cons_of_mem _ hp)⟩
    rw [List.flatten_cons] at hfits ⊢
    rw [List.length_append] at hfits
    have hpiece : address.toNat + piece.length < 2 ^ 64 := by omega
    have hpos : 0 < piece.length := List.length_pos_iff.mpr (hnonempty piece List.mem_cons_self)
    apply ShowBytes.cons _ rfl hpos hpiece
    apply ih hrest
    rw [toNat_add_ofNat hpiece]
    omega

end Pieces

/-! ## Instructions -/

/-- Whatever lengths a decoder gives, the instructions show all of the code. -/
theorem showBytes_disassemble (decode : Code.Decoder) {code : Bytes} {pc : UInt64}
    (hfits : pc.toNat + code.length < 2 ^ 64) :
    ShowBytes pc.toNat code
      ((Code.disassemble decode code pc).map fun i => Row.ofBytes i.address i.bytes i.text) := by
  fun_induction Code.disassemble decode code pc with
  | case1 => exact showBytes_nil
  | case2 pc b rest text given hdecode length ih =>
    have hlength : 1 ≤ length := Nat.le_max_left _ _
    have hle : length ≤ rest.length + 1 := by omega
    have hbytes : ((b :: rest).take length).length = length := by
      rw [List.length_take, List.length_cons]
      omega
    rw [List.length_cons] at hfits
    have hpiece : pc.toNat + length < 2 ^ 64 := by omega
    have hrest : (pc + UInt64.ofNat length).toNat + (rest.drop (length - 1)).length < 2 ^ 64 := by
      rw [toNat_add_ofNat hpiece, List.length_drop]
      omega
    have hcons := ShowBytes.cons text hbytes hlength hpiece (ih hrest)
    rwa [take_append_drop_tail b rest hlength] at hcons

theorem showBytes_codeRows (decode : Code.Decoder) (relocs : List RelocRow) {address : UInt64}
    {data : Bytes} (hfits : address.toNat + data.length < 2 ^ 64) :
    ShowBytes address.toNat data (codeRows decode relocs address data) := by
  have hshow := (showBytes_disassemble decode hfits).attach relocs
  rwa [List.map_map] at hshow

/-! ## Zeros -/

section Zeros

variable {start length limit : Nat} {rows : List Row}

/-- The rows stand for `length` zeros at `start`, and there are at most `limit` of them. -/
structure ShowZeros (start length limit : Nat) (rows : List Row) : Prop
    extends Follow start rows where
  no_bytes : ∀ row ∈ rows, row.bytes = []
  spanned_eq : spanned rows = length
  few : rows.length ≤ limit

theorem showZeros_nil : ShowZeros start 0 limit [] :=
  ⟨follow_nil, by simp, rfl, Nat.zero_le _⟩

theorem ShowZeros.cons {address : UInt64} {step : Nat} (text : String) (hstep : 0 < step)
    (hfits : address.toNat + step < 2 ^ 64)
    (h : ShowZeros (address + UInt64.ofNat step).toNat length limit rows) :
    ShowZeros address.toNat (step + length) (limit + 1)
      (Row.ofZeros address (UInt64.ofNat step) text :: rows) := by
  have hlength : (Row.ofZeros address (UInt64.ofNat step) text).length.toNat = step :=
    toNat_ofNat_of_add_lt hfits
  rw [toNat_add_ofNat hfits] at h
  refine ⟨.cons rfl (by rwa [hlength]) (by rw [hlength]; exact h.toFollow), ?_, ?_,
    Nat.succ_le_succ h.few⟩
  · simpa using ⟨rfl, h.no_bytes⟩
  · rw [spanned_cons, h.spanned_eq, hlength]

/-- The last row of the budget takes all that is left. -/
theorem showZeros_zeroRows {budget : Nat} {address : UInt64} (hbudget : 0 < budget ∨ length = 0)
    (hfits : address.toNat + length < 2 ^ 64) :
    ShowZeros address.toNat length budget (zeroRows budget address length) := by
  induction budget generalizing address length with
  | zero =>
    obtain rfl : length = 0 := by omega
    exact showZeros_nil
  | succ budget ih =>
    unfold zeroRows
    split
    · rename_i hzero
      subst hzero
      exact showZeros_nil
    · split
      · rename_i hlength hmore
        generalize hn : min length dataWidth = step
        have hstep : 0 < step := by
          simp only [dataWidth] at hn
          omega
        have hle : step ≤ length := hn ▸ Nat.min_le_left _ _
        have hfits' : address.toNat + step < 2 ^ 64 := by omega
        have hrest : ShowZeros (address + UInt64.ofNat step).toNat (length - step) budget
            (zeroRows budget (address + UInt64.ofNat step) (length - step)) := by
          apply ih
          · omega
          · rw [toNat_add_ofNat hfits']
            omega
        have hcons := ShowZeros.cons "zero-fill" hstep hfits' hrest
        rwa [Nat.add_sub_cancel' hle] at hcons
      · rename_i hlength _
        exact ShowZeros.cons _ (Nat.pos_of_ne_zero hlength) hfits showZeros_nil

end Zeros

/-! ## Sections -/

section Sections

variable {ctx : Context} {relocs : List RelocRow} {address : UInt64} {data : Bytes}

theorem showBytes_fixedRows {width : Nat} (text : Bytes → String) (hwidth : 0 < width)
    (hfits : address.toNat + data.length < 2 ^ 64) :
    ShowBytes address.toNat data (fixedRows width text address data) :=
  showBytes_layOut _ (cutInto_chunks hwidth data) hfits

theorem showBytes_dataRows (relocs : List RelocRow)
    (hfits : address.toNat + data.length < 2 ^ 64) :
    ShowBytes address.toNat data (dataRows relocs address data) :=
  (showBytes_layOut _ (cutInto_chunks (by decide) data) hfits).attach relocs

/-- Bytes of the file are shown byte for byte, with every semantic type. -/
theorem showBytes_byteRows (ctx : Context) (semantic : Semantic) (relocs : List RelocRow)
    (hfits : address.toNat + data.length < 2 ^ 64) :
    ShowBytes address.toNat data (byteRows ctx semantic relocs address data).rows := by
  cases semantic with
  | code =>
    unfold byteRows
    cases Code.decoder? ctx.index with
    | some decode => exact showBytes_codeRows decode relocs hfits
    | none => exact showBytes_dataRows relocs hfits
  | cString => exact showBytes_layOut _ (cutInto_stringPieces data) hfits
  | float128 =>
    unfold byteRows
    cases ctx.longDouble? with
    | some layout => exact showBytes_fixedRows _ (by decide) hfits
    | none => exact showBytes_fixedRows _ (by decide) hfits
  | data | ehFrame | declared => exact showBytes_dataRows relocs hfits
  | _ => exact showBytes_fixedRows _ (by decide) hfits

/-- The rows of a section show all of it, however it is asked for. Those of a section with bytes
show the bytes that the file holds; those of a zero-fill section stand for all its zeros, and there
are at most 4096 of them. Instructions show all bytes whatever the decoder makes of them. -/
theorem rows_tile_section (ctx : Context) (s : Section) (semantic : Semantic)
    (hfits : s.addr.toNat + s.size.toNat < 2 ^ 64) :
    (s.isZeroFill = false →
      ShowBytes s.addr.toNat (s.data.take s.size.toNat) (sectionView ctx s semantic).rows) ∧
    (s.isZeroFill = true →
      ShowZeros s.addr.toNat s.size.toNat 4096 (sectionView ctx s semantic).rows) ∧
    ∀ (decode : Code.Decoder) (relocs : List RelocRow),
      ShowBytes s.addr.toNat (s.data.take s.size.toNat)
        (codeRows decode relocs s.addr (sectionBytes s)) := by
  have hbytes : s.addr.toNat + (sectionBytes s).length < 2 ^ 64 := by
    have hle : (sectionBytes s).length ≤ s.size.toNat := List.length_take_le _ _
    omega
  refine ⟨?_, ?_, ?_⟩
  · intro hzero
    simp only [sectionView, sectionContents, hzero, Bool.false_eq_true, if_false]
    exact showBytes_byteRows ctx _ _ hbytes
  · intro hzero
    simp only [sectionView, sectionContents, hzero, if_true]
    exact showZeros_zeroRows (.inl (by decide)) hfits
  · intro decode relocs
    exact showBytes_codeRows decode relocs hbytes

/-- Code of which the file holds three bytes out of eight. -/
def cutCode : Section :=
  ⟨1, "__TEXT", "__text", 0x1000, 8, 0, 0, 0, 0, 0x80000000, [0x0f, 0x05, 0xe8], []⟩

/-- Zeros up to the last address, too many for rows of eight. -/
def farZeros : Section := ⟨2, "__DATA", "__bss", 0xffffffffffff6fff, 0x9000, 0, 0, 0, 0, 1, [], []⟩

def cutContext : Context :=
  ⟨SymbolIndex.build (Image.ofParts 0x1000007 3 1 0 .little [cutCode, farZeros] []), .x86_64, false⟩

theorem cut_rows_tile_section :
    (cutCode.addr.toNat + cutCode.size.toNat < 2 ^ 64 ∧
      ShowBytes 0x1000 [0x0f, 0x05, 0xe8] (sectionView cutContext cutCode .code).rows) ∧
    farZeros.addr.toNat + farZeros.size.toNat < 2 ^ 64 ∧
      ShowZeros 0xffffffffffff6fff 0x9000 4096 (sectionView cutContext farZeros .data).rows := by
  obtain ⟨hcode, -, -⟩ := rows_tile_section cutContext cutCode .code (by decide)
  obtain ⟨-, hzeros, -⟩ := rows_tile_section cutContext farZeros .data (by decide)
  exact ⟨⟨by decide, hcode rfl⟩, by decide, hzeros rfl⟩

end Sections

end MachInspect.View
