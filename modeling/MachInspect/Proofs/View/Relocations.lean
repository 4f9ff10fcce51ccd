-- SUMMARY: Which rows of a section show its relocations.
import MachInspect.Proofs.Symbols.Binding
import MachInspect.Proofs.View.Focus
import MachInspect.Proofs.View.Ranges

/-!
# Relocations under rows

A relocation is told apart by its position in the table of its section. Rows of code and data show
each relocation under the one row that holds all of it. The other kinds of rows, and the rows of
zero-fill sections, show none.
-/
namespace MachInspect

theorem Reloc.width_pos (r : Reloc) : 0 < r.width := Nat.two_pow_pos _

namespace Section

variable (s : Section) (r : Reloc)

/-- The number of bytes to patch that the file holds: all of them or none. -/
def presentWidth : Nat :=
  if s.addr ≤ s.relocAddress r ∧
      (s.relocAddress r).toNat - s.addr.toNat + r.width ≤ s.data.length then r.width
  else 0

/-- First address past a relocation. One whose bytes are missing takes a single byte. -/
def relocStop : Nat := (s.relocAddress r).toNat + max 1 (s.presentWidth r)

theorem length_patchedBytes :
    ((s.bytesAt? (s.relocAddress r) r.width).getD []).length = s.presentWidth r := by
  unfold bytesAt? slice? presentWidth
  by_cases hstart : s.addr ≤ s.relocAddress r
  · by_cases hstop : (s.relocAddress r).toNat - s.addr.toNat + r.width ≤ s.data.length
    · rw [if_pos hstart, if_pos hstop, if_pos ⟨hstart, hstop⟩]
      simp only [Option.getD_some, List.length_take, List.length_drop]
      omega
    · rw [if_pos hstart, if_neg hstop, if_neg fun h => hstop h.2]
      rfl
  · rw [if_neg hstart, if_neg fun h => hstart h.1]
    rfl

theorem presentWidth_le : s.presentWidth r ≤ 8 := by
  unfold presentWidth
  split
  · exact r.width_le
  · exact Nat.zero_le _

end Section

namespace View

/-! ## The relocations of a section -/

section Entries

variable {index : SymbolIndex} {s : Section} {p : Nat} {r : Reloc}

/-- The row of a relocation covers what the relocation takes. -/
theorem exists_relocRow (index : SymbolIndex) (hr : s.relocs[p]? = some r) :
    ∃ shown, RelocRow.of? index s p = some shown ∧ shown.address = s.relocAddress r ∧
      shown.address.toNat + shown.length.toNat = s.relocStop r := by
  have hlength : (UInt64.ofNat (max 1 (s.presentWidth r))).toNat = max 1 (s.presentWidth r) := by
    have hle := s.presentWidth_le r
    exact UInt64.toNat_ofNat_of_lt' (by simp only [UInt64.size]; omega)
  refine ⟨_, by rw [RelocRow.of?, hr]; rfl, rfl, ?_⟩
  simp only [RelocRow.length, s.length_patchedBytes r, hlength]
  rfl

/-- Ends past the last address count as the last address. -/
theorem liesIn_iff {shown : RelocRow} {address length : UInt64} :
    shown.liesIn address length = true ↔
      address.toNat ≤ shown.address.toNat ∧
        min (shown.address.toNat + shown.length.toNat) (2 ^ 64 - 1) ≤
          min (address.toNat + length.toNat) (2 ^ 64 - 1) := by
  simp only [RelocRow.liesIn, Bool.and_eq_true, decide_eq_true_eq, UInt64.le_iff_toNat_le,
    toNat_saturatingAdd]

/-- Positions of the relocations that stand on their own. -/
def standing (index : SymbolIndex) (s : Section) : List Nat :=
  (s.relocs.zipIdx.filter fun (r, _) => !Reloc.isPair index.image.arch r).map Prod.snd

theorem mem_standing :
    p ∈ standing index s ↔
      ∃ r, s.relocs[p]? = some r ∧ Reloc.isPair index.image.arch r = false := by
  simp [standing, List.mem_zipIdx_iff_getElem?]

theorem pairwise_standing (index : SymbolIndex) (s : Section) :
    (standing index s).Pairwise (· < ·) := by
  have hsublist : (standing index s).Sublist (s.relocs.zipIdx.map Prod.snd) :=
    List.filter_sublist.map Prod.snd
  refine List.Pairwise.sublist hsublist ?_
  rw [List.zipIdx_map_snd]
  exact List.pairwise_lt_range'

theorem map_some_filter_filterMap {α β : Type} {f : α → Option β} {l : List α}
    (h : ∀ x ∈ l, ∃ y, f x = some y) (q : β → Bool) :
    ((l.filterMap f).filter q).map some = (l.filter fun x => (f x).any q).map f := by
  induction l with
  | nil => rfl
  | cons x rest ih =>
    obtain ⟨⟨y, hy⟩, hrest⟩ := List.forall_mem_cons.mp h
    cases hq : q y <;> simp [hy, hq, ih hrest]

/-- The relocations with a property, as positions. -/
theorem filter_sectionRelocRows (q : RelocRow → Bool) :
    ((sectionRelocRows index s).filter q).map some =
      ((standing index s).filter fun p => (RelocRow.of? index s p).any q).map
        (RelocRow.of? index s) := by
  have hrows : sectionRelocRows index s = (standing index s).filterMap (RelocRow.of? index s) := by
    rw [standing, List.filterMap_map]
    rfl
  rw [hrows]
  refine map_some_filter_filterMap (fun p hp => ?_) q
  obtain ⟨r, hr, -⟩ := mem_standing.mp hp
  obtain ⟨shown, hshown, -⟩ := exists_relocRow index hr
  exact ⟨shown, hshown⟩

end Entries

/-! ## Rows with the relocations inside them -/

section Annotated

variable {index : SymbolIndex} {s : Section} {rows : List Row} {relocs : List RelocRow}

/-- Each row shows those of the relocations that lie in it, in their order. -/
def Annotated (relocs : List RelocRow) (rows : List Row) : Prop :=
  ∀ row ∈ rows, row.relocs = relocs.filter fun r => r.liesIn row.address row.length

theorem annotated_attach (relocs : List RelocRow) (rows : List Row) :
    Annotated relocs (rows.map fun row => row.attach row.length relocs) := by
  intro row hrow
  obtain ⟨bare, -, rfl⟩ := List.mem_map.mp hrow
  rfl

theorem annotated_codeRows (decode : Code.Decoder) (relocs : List RelocRow) (address : UInt64)
    (data : Bytes) : Annotated relocs (codeRows decode relocs address data) := by
  have hattach := annotated_attach relocs
    ((Code.disassemble decode data address).map fun i => Row.ofBytes i.address i.bytes i.text)
  rwa [List.map_map] at hattach

/-- What the rows of a section show of its relocations: `shown k` has the positions of those under
row `k`. -/
structure ShowsRelocs (index : SymbolIndex) (s : Section) (rows : List Row)
    (shown : Nat → List Nat) : Prop where
  relocs_eq : ∀ k row, rows[k]? = some row →
    row.relocs.map some = (shown k).map (RelocRow.of? index s)
  in_order : ∀ k, (shown k).Pairwise (· < ·)
  alone : ∀ k, ∀ p ∈ shown k,
    ∃ r, s.relocs[p]? = some r ∧ Reloc.isPair index.image.arch r = false
  once : ∀ p j k, p ∈ shown j → p ∈ shown k → j = k
  /-- Nothing is said of a relocation that reaches the last address if the section ends there. -/
  mem_iff : ∀ p r, s.relocs[p]? = some r → Reloc.isPair index.image.arch r = false →
    s.relocStop r < 2 ^ 64 ∨ s.addr.toNat + s.size.toNat + 1 < 2 ^ 64 →
    ∀ k, p ∈ shown k ↔
      ∃ row, rows[k]? = some row ∧ row.Holds (s.relocAddress r).toNat (s.relocStop r)

/-- Positions of the relocations that lie in the row with a number. -/
def lyingIn (index : SymbolIndex) (s : Section) (rows : List Row) (k : Nat) : List Nat :=
  match rows[k]? with
  | some row => (standing index s).filter fun p =>
      (RelocRow.of? index s p).any fun r => r.liesIn row.address row.length
  | none => []

theorem mem_lyingIn {k p : Nat} :
    p ∈ lyingIn index s rows k ↔
      ∃ row r, rows[k]? = some row ∧ s.relocs[p]? = some r ∧
        Reloc.isPair index.image.arch r = false ∧ row.address.toNat ≤ (s.relocAddress r).toNat ∧
        min (s.relocStop r) (2 ^ 64 - 1) ≤ min row.stop (2 ^ 64 - 1) := by
  unfold lyingIn
  cases hrow : rows[k]? with
  | none => simp
  | some row =>
    simp only [List.mem_filter, mem_standing, Option.some.injEq, exists_and_left, exists_eq_left']
    constructor
    · rintro ⟨⟨r, hr, hpair⟩, hlies⟩
      obtain ⟨shown, hshown, haddress, hstop⟩ := exists_relocRow index hr
      rw [hshown, Option.any_some, liesIn_iff, hstop, haddress] at hlies
      exact ⟨r, hr, hpair, hlies⟩
    · rintro ⟨r, hr, hpair, hlies⟩
      obtain ⟨shown, hshown, haddress, hstop⟩ := exists_relocRow index hr
      refine ⟨⟨r, hr, hpair⟩, ?_⟩
      rw [hshown, Option.any_some, liesIn_iff, hstop, haddress]
      exact hlies

theorem stop_le_of_showBytes (h : ShowBytes s.addr.toNat (sectionBytes s) rows) :
    ∀ row ∈ rows, row.stop ≤ s.addr.toNat + s.size.toNat := by
  intro row hrow
  have hstop := h.stop_le row hrow
  have hbytes : (sectionBytes s).length ≤ s.size.toNat := List.length_take_le _ _
  rw [h.spanned_eq] at hstop
  omega

/-- A relocation that lies in a row lies in no later one, which would have to start at or before the
relocation although the earlier row ends behind it. -/
theorem not_mem_lyingIn_of_lt {p j k : Nat} (hfits : s.addr.toNat + s.size.toNat < 2 ^ 64)
    (hshow : ShowBytes s.addr.toNat (sectionBytes s) rows) (hlt : j < k)
    (hj : p ∈ lyingIn index s rows j) : p ∉ lyingIn index s rows k := by
  intro hk
  obtain ⟨row, r, hrow, hr, -, -, hstop⟩ := mem_lyingIn.mp hj
  obtain ⟨later, r', hlater, hr', -, hstart, -⟩ := mem_lyingIn.mp hk
  obtain rfl : r = r' := Option.some.inj (hr.symm.trans hr')
  have hapart : row.stop ≤ later.address.toNat := hshow.stop_le_of_lt hrow hlater hlt
  have hend := stop_le_of_showBytes hshow later (List.mem_of_getElem? hlater)
  have hpos := hshow.nonempty later (List.mem_of_getElem? hlater)
  have htakes : (s.relocAddress r).toNat < s.relocStop r := by
    rw [Section.relocStop]
    omega
  rw [Row.stop] at hend
  omega

/-- Rows that follow each other through a section and show the relocations that lie in them. -/
theorem Annotated.showsRelocs (h : Annotated (sectionRelocRows index s) rows)
    (hfits : s.addr.toNat + s.size.toNat < 2 ^ 64)
    (hshow : ShowBytes s.addr.toNat (sectionBytes s) rows) :
    ShowsRelocs index s rows (lyingIn index s rows) where
  relocs_eq k row hrow := by
    rw [h row (List.mem_of_getElem? hrow), filter_sectionRelocRows, lyingIn, hrow]
  in_order k := by
    unfold lyingIn
    split
    · exact (pairwise_standing index s).filter _
    · exact .nil
  alone k p hp := by
    obtain ⟨row, r, -, hr, hpair, -⟩ := mem_lyingIn.mp hp
    exact ⟨r, hr, hpair⟩
  once p j k hj hk := by
    rcases Nat.lt_trichotomy j k with hlt | heq | hlt
    · exact absurd hk (not_mem_lyingIn_of_lt hfits hshow hlt hj)
    · exact heq
    · exact absurd hj (not_mem_lyingIn_of_lt hfits hshow hlt hk)
  mem_iff p r hr hpair hends k := by
    rw [mem_lyingIn]
    constructor
    · rintro ⟨row, r', hrow, hr', -, hstart, hstop⟩
      obtain rfl : r = r' := Option.some.inj (hr.symm.trans hr')
      have hend := stop_le_of_showBytes hshow row (List.mem_of_getElem? hrow)
      exact ⟨row, hrow, hstart, by omega⟩
    · rintro ⟨row, hrow, hstart, hstop⟩
      exact ⟨row, r, hrow, hr, hpair, hstart, by omega⟩

end Annotated

/-! ## Rows without relocations -/

section Bare

/-- No row shows a relocation. -/
def Bare (rows : List Row) : Prop := ∀ row ∈ rows, row.relocs = []

theorem bare_layOut (text : Bytes → String) (address : UInt64) (pieces : List Bytes) :
    Bare (layOut text address pieces) := by
  intro row hrow
  obtain ⟨start, piece, rfl⟩ := exists_of_mem_layOut hrow
  rfl

theorem bare_zeroRows (budget : Nat) (address : UInt64) (length : Nat) :
    Bare (zeroRows budget address length) := by
  intro row hrow
  obtain ⟨start, length, text, rfl⟩ := exists_of_mem_zeroRows hrow
  rfl

end Bare

/-! ## Sections -/

section Sections

variable {ctx : Context} {s : Section} {semantic : Semantic}

theorem annotated_sectionView (hsemantic : semantic = .code ∨ semantic = .data)
    (hbytes : s.isZeroFill = false) :
    Annotated (sectionRelocRows ctx.index s) (sectionView ctx s semantic).rows := by
  simp only [sectionView, sectionContents, hbytes, Bool.false_eq_true, if_false, Contents.decode]
  rcases hsemantic with rfl | rfl
  · simp only [sectionSemantic, byteRows]
    cases Code.decoder? ctx.index with
    | some decode => exact annotated_codeRows decode _ _ _
    | none => exact annotated_attach _ _
  · exact annotated_attach _ _

theorem bare_zeroFill (hzeros : s.isZeroFill = true) : Bare (sectionView ctx s semantic).rows := by
  simp only [sectionView, sectionContents, hzeros, if_true]
  exact bare_zeroRows _ _ _

/-- In a section with bytes, shown as code or data, each relocation that stands on its own is under
at most one row: the one that holds all of it, if there is one. Rows keep the order of the table,
second halves of pairs are nowhere, and all this holds whatever a decoder makes of the bytes. Rows of
zeros have no bytes to patch and show no relocation. -/
theorem relocs_shown_in_row_around_them (ctx : Context) (s : Section) (semantic : Semantic)
    (hsemantic : semantic = .code ∨ semantic = .data)
    (hfits : s.addr.toNat + s.size.toNat < 2 ^ 64) :
    (s.isZeroFill = false →
      ∃ shown, ShowsRelocs ctx.index s (sectionView ctx s semantic).rows shown) ∧
    (s.isZeroFill = true → ∀ row ∈ (sectionView ctx s semantic).rows, row.relocs = []) ∧
    ∀ decode : Code.Decoder, ∃ shown, ShowsRelocs ctx.index s
      (codeRows decode (sectionRelocRows ctx.index s) s.addr (sectionBytes s)) shown := by
  refine ⟨?_, bare_zeroFill, ?_⟩
  · intro hbytes
    have hrows : Annotated (sectionRelocRows ctx.index s) (sectionView ctx s semantic).rows :=
      annotated_sectionView hsemantic hbytes
    exact ⟨_, hrows.showsRelocs hfits (showBytes_sectionView hbytes hfits)⟩
  · intro decode
    have hle : s.addr.toNat + (sectionBytes s).length < 2 ^ 64 := by
      have hlength : (sectionBytes s).length ≤ s.size.toNat := List.length_take_le _ _
      omega
    have hrows := annotated_codeRows decode (sectionRelocRows ctx.index s) s.addr (sectionBytes s)
    exact ⟨_, hrows.showsRelocs hfits (showBytes_codeRows decode _ hle)⟩

theorem chunks_of_length_le {width : Nat} {data : Bytes} (hpos : data ≠ [])
    (hle : data.length ≤ width) : chunks width data = [data] := by
  have hwidth : width ≠ 0 := by
    have := List.length_pos_iff.mpr hpos
    omega
  rw [chunks, if_neg (by simp [hwidth, hpos]), List.take_of_length_le hle,
    List.drop_eq_nil_of_le hle, chunks, if_pos (.inr rfl)]

/-- Up to eight bytes of data are one row. -/
theorem rows_of_short_data (hbytes : s.isZeroFill = false) (hpos : sectionBytes s ≠ [])
    (hle : (sectionBytes s).length ≤ dataWidth) :
    (sectionView ctx s .data).rows =
      [(Row.ofBytes s.addr (sectionBytes s) (Text.ascii (sectionBytes s))).attach
        (UInt64.ofNat (sectionBytes s).length) (sectionRelocRows ctx.index s)] := by
  simp only [sectionView, sectionContents, hbytes, Bool.false_eq_true, if_false]
  change dataRows _ _ _ = _
  rw [dataRows, chunks_of_length_le hpos hle]
  rfl

/-- Eight bytes with a relocation of the first four, a pair for the last four, a relocation that the
section cuts off, and one behind the section. -/
def mixedData : Section :=
  ⟨1, "__DATA", "__data", 0x2000, 8, 0, 0, 0, 0, 0, List.replicate 8 0,
    [⟨0, 0, 0, 2, false, true, false⟩, ⟨4, 0x2004, 2, 2, false, false, true⟩,
     ⟨0, 0x2000, 1, 2, false, false, true⟩, ⟨6, 0, 0, 2, false, true, false⟩,
     ⟨8, 0, 0, 0, false, true, false⟩]⟩

def mixedContext : Context :=
  ⟨SymbolIndex.build (Image.ofParts 7 3 1 0 .little [mixedData] [⟨"_data", 0xf, 1, 0, 0x2000⟩]),
    .x86_64, false⟩

theorem mixed_relocs_shown_in_row_around_them :
    mixedData.addr.toNat + mixedData.size.toNat < 2 ^ 64 ∧ mixedData.isZeroFill = false ∧
    ∃ shown, ShowsRelocs mixedContext.index mixedData
        (sectionView mixedContext mixedData .data).rows shown ∧
      1 ∈ shown 0 ∧ 3 ∈ shown 0 ∧ ∀ k, 2 ∉ shown k ∧ 4 ∉ shown k := by
  obtain ⟨hview, -, -⟩ :=
    relocs_shown_in_row_around_them mixedContext mixedData .data (.inr rfl) (by decide)
  obtain ⟨shown, hshown⟩ := hview (by decide)
  have hrows : (sectionView mixedContext mixedData .data).rows = _ :=
    rows_of_short_data (by decide) (by decide) (by decide)
  refine ⟨by decide, by decide, shown, hshown, ?_, ?_, fun k => ⟨fun hpair => ?_, fun hbehind => ?_⟩⟩
  · exact (hshown.mem_iff 1 _ rfl rfl (.inr (by decide)) 0).mpr ⟨_, by rw [hrows]; rfl, by decide⟩
  · exact (hshown.mem_iff 3 _ rfl rfl (.inr (by decide)) 0).mpr ⟨_, by rw [hrows]; rfl, by decide⟩
  · obtain ⟨r, hr, hpair⟩ := hshown.alone k 2 hpair
    cases hr
    cases hpair
  · obtain ⟨row, hrow, hholds⟩ := (hshown.mem_iff 4 _ rfl rfl (.inr (by decide)) k).mp hbehind
    rw [hrows] at hrow
    obtain rfl := List.mem_singleton.mp (List.mem_of_getElem? hrow)
    exact absurd hholds (by decide)

/-- Zeros, and an entry at their start. -/
def patchedZeros : Section :=
  ⟨1, "__DATA", "__bss", 0x2000, 8, 0, 0, 0, 0, 1, [], [⟨0, 0, 0, 2, false, true, false⟩]⟩

/-- Data up to the last address, and an entry at that address. -/
def lastData : Section :=
  ⟨2, "__DATA", "__data", 0xfffffffffffffff7, 8, 0, 0, 0, 0, 0,
    [0x41, 0x42, 0x43, 0x44, 0x45, 0x46, 0x47, 0x48], [⟨8, 0, 0, 0, false, true, false⟩]⟩

def edgeContext : Context :=
  ⟨SymbolIndex.build (Image.ofParts 0x1000007 3 1 0 .little [patchedZeros, lastData]
    [⟨"_buffer", 0xf, 1, 0, 0x2000⟩]), .x86_64, false⟩

/-- The row of zeros holds the entry and does not show it; the row of data ends before the entry and
shows it. -/
theorem edge_relocs_shown_elsewhere :
    (patchedZeros.addr.toNat + patchedZeros.size.toNat < 2 ^ 64 ∧
      ∃ row, (sectionView edgeContext patchedZeros .data).rows = [row] ∧ row.relocs = [] ∧
        ∀ r ∈ patchedZeros.relocs, Reloc.isPair edgeContext.image.arch r = false ∧
          row.Holds (patchedZeros.relocAddress r).toNat (patchedZeros.relocStop r)) ∧
    lastData.addr.toNat + lastData.size.toNat < 2 ^ 64 ∧
      ∃ row, (sectionView edgeContext lastData .data).rows = [row] ∧
        row.relocs.map some = [RelocRow.of? edgeContext.index lastData 0] ∧
        ∀ r ∈ lastData.relocs,
          ¬ row.Holds (lastData.relocAddress r).toNat (lastData.relocStop r) := by
  refine ⟨⟨by decide, _, rfl, rfl, by decide⟩, by decide, ?_⟩
  exact ⟨_, rows_of_short_data (by decide) (by decide) (by decide), rfl, by decide⟩

/-! ## Values -/

/-- Ways of showing one value in each row. -/
def valueSemantics : List Semantic :=
  [.cString, .float32, .float64, .float128, .int32, .int64, .pointer32, .pointer64]

theorem bare_byteRows (hsemantic : semantic ∈ valueSemantics) (ctx : Context)
    (relocs : List RelocRow) (address : UInt64) (data : Bytes) :
    Bare (byteRows ctx semantic relocs address data).rows := by
  cases semantic with
  | code | data | ehFrame | declared => simp [valueSemantics] at hsemantic
  | float128 =>
    unfold byteRows
    cases ctx.longDouble? with
    | some layout => exact bare_layOut _ _ _
    | none => exact bare_layOut _ _ _
  | _ => exact bare_layOut _ _ _

theorem bare_sectionView (hsemantic : semantic ∈ valueSemantics) (hbytes : s.isZeroFill = false) :
    Bare (sectionView ctx s semantic).rows := by
  have hdeclared : sectionSemantic semantic = (semantic, []) := by
    cases semantic with
    | declared => simp [valueSemantics] at hsemantic
    | _ => rfl
  simp only [sectionView, hdeclared, sectionContents, hbytes, Bool.false_eq_true, if_false]
  exact bare_byteRows hsemantic ctx _ _ _

/-- The row holds all the bytes that a relocation patches. -/
def Row.HoldsOperand (row : Row) (s : Section) (r : Reloc) : Prop :=
  row.Holds (s.relocAddress r).toNat ((s.relocAddress r).toNat + r.width)

instance (row : Row) (s : Section) (r : Reloc) : Decidable (row.HoldsOperand s r) :=
  inferInstanceAs (Decidable (row.Holds _ _))

/-- The row shows the relocations whose operands it holds, each once, and no others. -/
def ShowsOperands (index : SymbolIndex) (s : Section) (row : Row) : Prop :=
  ∃ shown : List Nat, shown.Nodup ∧
    row.relocs.map some = shown.map (RelocRow.of? index s) ∧
    ∀ p, p ∈ shown ↔ ∃ r, s.relocs[p]? = some r ∧ Reloc.isPair index.image.arch r = false ∧
      row.HoldsOperand s r

/-- A row without relocations is right if it holds no operand. -/
theorem showsOperands_iff_of_bare {index : SymbolIndex} {row : Row} (hbare : row.relocs = []) :
    ShowsOperands index s row ↔
      ∀ r ∈ s.relocs, Reloc.isPair index.image.arch r = false → ¬ row.HoldsOperand s r := by
  constructor
  · rintro ⟨shown, -, hrelocs, hshown⟩ r hr hpair hholds
    obtain ⟨p, hp⟩ := List.mem_iff_getElem?.mp hr
    have hmem := (hshown p).mpr ⟨r, hp, hpair, hholds⟩
    rw [hbare, List.map_nil, eq_comm, List.map_eq_nil_iff] at hrelocs
    simp [hrelocs] at hmem
  · intro hnone
    refine ⟨[], List.nodup_nil, by rw [hbare]; rfl, fun p => ⟨by simp, ?_⟩⟩
    rintro ⟨r, hr, hpair, hholds⟩
    exact absurd hholds (hnone r (List.mem_of_getElem? hr) hpair)

/-- Rows of values never show a relocation. So they are right only if no relocation is inside a row:
each one that is inside the bytes shown has the start of a row in its middle. -/
theorem value_rows_show_operands_iff (ctx : Context) (s : Section) (semantic : Semantic)
    (hsemantic : semantic ∈ valueSemantics) (hbytes : s.isZeroFill = false)
    (hfits : s.addr.toNat + s.size.toNat < 2 ^ 64) :
    (∀ row ∈ (sectionView ctx s semantic).rows, row.relocs = []) ∧
    ((∀ row ∈ (sectionView ctx s semantic).rows, ShowsOperands ctx.index s row) ↔
      ∀ r ∈ s.relocs, Reloc.isPair ctx.image.arch r = false →
        s.addr.toNat ≤ (s.relocAddress r).toNat →
        (s.relocAddress r).toNat + r.width ≤ s.addr.toNat + (sectionBytes s).length →
        ∃ row ∈ (sectionView ctx s semantic).rows,
          (s.relocAddress r).toNat < row.address.toNat ∧
            row.address.toNat < (s.relocAddress r).toNat + r.width) := by
  have hbare : Bare (sectionView ctx s semantic).rows := bare_sectionView hsemantic hbytes
  have hshow : ShowBytes s.addr.toNat (sectionBytes s) (sectionView ctx s semantic).rows :=
    showBytes_sectionView hbytes hfits
  refine ⟨hbare, ?_⟩
  generalize (sectionView ctx s semantic).rows = rows at hbare hshow ⊢
  constructor
  · intro hall r hr hpair hstart hstop
    rw [← hshow.spanned_eq] at hstop
    have hwidth : (s.relocAddress r).toNat < (s.relocAddress r).toNat + r.width :=
      Nat.lt_add_of_pos_right r.width_pos
    rcases hshow.holds_or_starts_inside hstart hwidth hstop with ⟨row, hrow, hholds⟩ | hinside
    · have hnone := (showsOperands_iff_of_bare (hbare row hrow)).mp (hall row hrow)
      exact absurd hholds (hnone r hr hpair)
    · exact hinside
  · intro hcut row hrow
    rw [showsOperands_iff_of_bare (hbare row hrow)]
    intro r hr hpair hholds
    have hstart := hshow.start_le row hrow
    have hstop := hshow.stop_le row hrow
    rw [hshow.spanned_eq] at hstop
    obtain ⟨inner, hinner, hlo, hhi⟩ :=
      hcut r hr hpair (Nat.le_trans hstart hholds.1) (Nat.le_trans hholds.2 hstop)
    exact hshow.not_holds_of_starts_inside hrow hinner hlo hhi hholds

/-- Two integers and a relocation across both. -/
def straddledIntegers : Section :=
  ⟨1, "__DATA", "__data", 0x2000, 8, 0, 0, 0, 0, 0, List.replicate 8 0,
    [⟨2, 0, 0, 2, false, true, false⟩]⟩

theorem straddled_value_rows_show_operands :
    straddledIntegers.isZeroFill = false ∧
    straddledIntegers.addr.toNat + straddledIntegers.size.toNat < 2 ^ 64 ∧
    ∀ row ∈ (sectionView mixedContext straddledIntegers .int32).rows,
      ShowsOperands mixedContext.index straddledIntegers row := by
  obtain ⟨-, hiff⟩ := value_rows_show_operands_iff mixedContext straddledIntegers .int32
    (by decide) (by decide) (by decide)
  refine ⟨by decide, by decide, hiff.mpr fun r hr _ _ _ => ?_⟩
  obtain rfl := List.mem_singleton.mp hr
  have hrows : (sectionView mixedContext straddledIntegers .int32).rows.map Row.address =
      [0x2000, 0x2004] := by
    change (fixedRows 4 _ _ _).map Row.address = _
    simp [fixedRows, chunks, layOut, sectionBytes, straddledIntegers, Row.ofBytes]
  have hsecond : 0x2004 ∈ (sectionView mixedContext straddledIntegers .int32).rows.map
      Row.address := by
    rw [hrows]
    simp
  obtain ⟨row, hrow, haddress⟩ := List.mem_map.mp hsecond
  exact ⟨row, hrow, by rw [haddress]; decide⟩

/-- A pointer that a relocation fills in. -/
def patchedPointer : Section :=
  ⟨1, "__DATA", "__const", 0x2000, 8, 0, 0, 0, 0, 0, List.replicate 8 0,
    [⟨0, 0, 0, 3, false, true, false⟩]⟩

def pointerContext : Context :=
  ⟨SymbolIndex.build (Image.ofParts 0x1000007 3 1 0 .little [patchedPointer]
    [⟨"_main", 0xf, 1, 0, 0x2000⟩]), .x86_64, false⟩

/-- The row of the pointer does not show the relocation of its eight bytes. -/
theorem pointer_row_misses_reloc :
    patchedPointer.isZeroFill = false ∧
    patchedPointer.addr.toNat + patchedPointer.size.toNat < 2 ^ 64 ∧
    ∃ row, (sectionView pointerContext patchedPointer .pointer64).rows = [row] ∧
      row.relocs = [] ∧ ¬ ShowsOperands pointerContext.index patchedPointer row := by
  have hrows : (sectionView pointerContext patchedPointer .pointer64).rows =
      [Row.ofBytes 0x2000 patchedPointer.data
        (pointerText pointerContext.index patchedPointer.data)] := by
    change fixedRows 8 _ _ _ = _
    rw [fixedRows, chunks_of_length_le (by decide) (by decide)]
    rfl
  refine ⟨by decide, by decide, _, hrows, rfl, fun hshows => ?_⟩
  have hnone := (showsOperands_iff_of_bare rfl).mp hshows
  exact hnone ⟨0, 0, 0, 3, false, true, false⟩ (by decide) (by decide) (by decide)

end Sections

end View

end MachInspect
