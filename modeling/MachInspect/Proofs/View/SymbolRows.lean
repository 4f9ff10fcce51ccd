-- SUMMARY: The rows of a symbol show what is stored of its extent; a warning says what is missing.
import MachInspect.Proofs.Symbols.Members
import MachInspect.Proofs.Text.Numerals
import MachInspect.Proofs.View.Places
import MachInspect.Proofs.View.Ranges

/-!
# Rows of symbols

The page of a symbol shows the part of its section's data that lies in the extent of its group,
through whichever semantic type it is asked for. If the data ends before the extent, a warning says
so. Other warnings of the page are never of this form: this one begins with the symbol's name and a
colon (`IsAbout`), the others do not.
-/
namespace MachInspect.View

open Text Value

/-! ## Warnings about a symbol -/

section Warnings

/-- The warning begins with a name and a colon. -/
def IsAbout (name warning : String) : Prop :=
  ∃ rest, warning.toList = name.toList ++ ':' :: rest

/-- None of the warnings is about the name. -/
def Silent (name : String) (warnings : List String) : Prop := ∀ w ∈ warnings, ¬ IsAbout name w

variable {name : String}

theorem silent_nil : Silent name [] := List.forall_mem_nil _

theorem Silent.cons {w : String} {warnings : List String} (hw : ¬ IsAbout name w)
    (h : Silent name warnings) : Silent name (w :: warnings) :=
  List.forall_mem_cons.mpr ⟨hw, h⟩

theorem not_isAbout_of_notMem {w : String} (h : ':' ∉ w.toList) : ¬ IsAbout name w := by
  rintro ⟨rest, hrest⟩
  rw [hrest] at h
  simp at h

/-- A text in front of a name moves the colon out of place, also if the name repeats the text. -/
theorem append_ne_colon {front name rest tail : List Char} (hfront : front ≠ [])
    (hcolon : ':' ∉ front) : front ++ (name ++ rest) ≠ name ++ ':' :: tail := by
  intro heq
  rcases Nat.lt_or_ge name.length front.length with hlt | hge
  · have hat := congrArg (·[name.length]?) heq
    simp only [List.getElem?_append_left hlt, List.getElem?_append_right (Nat.le_refl _),
      Nat.sub_self, List.getElem?_cons_zero] at hat
    exact hcolon (List.mem_of_getElem? hat)
  · -- the name begins with the text, which can be taken off both sides
    have hbegins : front <+: name ++ ':' :: tail := heq ▸ List.prefix_append _ _
    obtain ⟨shorter, rfl⟩ := List.prefix_of_prefix_length_le hbegins (List.prefix_append _ _) hge
    simp only [List.append_assoc, List.append_cancel_left_eq] at heq
    exact append_ne_colon hfront hcolon heq
termination_by name.length
decreasing_by
  have hpos : 0 < front.length := List.length_pos_iff.mpr hfront
  subst_vars
  rw [List.length_append]
  omega

theorem not_isAbout_append (name front rest : String) (hfront : front ≠ "")
    (hcolon : ':' ∉ front.toList) : ¬ IsAbout name (front ++ name ++ rest) := by
  rintro ⟨tail, htail⟩
  rw [String.toList_append, String.toList_append, List.append_assoc] at htail
  exact append_ne_colon (by simpa using hfront) hcolon htail

theorem colon_notMem_toDigits (n : Nat) : ':' ∉ Nat.toDigits 16 n := by
  have hdigit : ∀ d < 16, ':' ≠ Nat.digitChar d := by decide
  intro hmem
  obtain ⟨d, hd, hcolon⟩ := exists_of_mem_toDigits (by decide) hmem
  exact hdigit d hd hcolon

theorem colon_notMem_archName (arch : Arch) : ':' ∉ arch.name.toList := by
  cases arch with
  | other cpuType => simp [Arch.name, hex, colon_notMem_toDigits]
  | _ => decide

/-- No warning from the decoding of bytes or zeros is about a name. -/
theorem silent_decode (ctx : Context) (semantic : Semantic) (relocs : List RelocRow)
    (address : UInt64) (contents : Contents) :
    Silent name (contents.decode ctx semantic relocs address).warnings := by
  cases contents with
  | zeroFill length => exact silent_nil
  | present data =>
    cases semantic with
    | code =>
      simp only [Contents.decode, byteRows]
      cases Code.decoder? ctx.index with
      | some decode => exact silent_nil
      | none =>
        refine silent_nil.cons (not_isAbout_of_notMem ?_)
        simp [colon_notMem_archName]
    | float128 =>
      simp only [Contents.decode, byteRows]
      cases ctx.longDouble? with
      | some layout => exact silent_nil
      | none =>
        refine silent_nil.cons (not_isAbout_of_notMem ?_)
        simp [colon_notMem_archName]
    | _ => exact silent_nil

theorem silent_declaredRows (ctx : Context) (declaration : Declaration) (relocs : List RelocRow)
    (address : UInt64) (contents : Contents) :
    Silent name (declaredRows ctx name declaration relocs address contents).warnings := by
  have hdata : Silent name (contents.decode ctx .data relocs address).warnings :=
    silent_decode ctx .data relocs address contents
  cases declaration with
  | unavailable => exact hdata.cons (not_isAbout_of_notMem (by decide))
  | absent =>
    refine hdata.cons ?_
    have hfront := not_isAbout_append name "no DWARF variable for " "" (by decide) (by decide)
    rwa [String.append_empty] at hfront
  | broken e =>
    refine hdata.cons ?_
    have hfront := not_isAbout_append name "DWARF type of " (": " ++ e.message) (by decide)
      (by decide)
    rwa [← String.append_assoc] at hfront
  | found type =>
    simp only [declaredRows, typedRow]
    split
    · exact silent_nil
    · refine silent_nil.cons ?_
      rintro ⟨rest, hrest⟩
      simp [List.append_assoc] at hrest

end Warnings

/-! ## What is stored of an extent -/

section Stored

variable {home : Section} {g : SymbolGroup}

/-- The part of a section's data that lies in the extent of a group. -/
def storedBytes (home : Section) (g : SymbolGroup) : Bytes :=
  if home.addr ≤ g.address then
    let offset := g.address.toNat - home.addr.toNat
    home.data.extract offset (min (offset + g.size.toNat) home.data.length)
  else []

theorem groupContents_eq (hbytes : home.isZeroFill = false) :
    groupContents home g = .present (storedBytes home g) := by
  unfold groupContents storedBytes
  rw [hbytes, if_neg Bool.false_ne_true]
  split
  · rw [List.extract_eq_take_drop, Contents.present.injEq, List.take_eq_take_iff, List.length_drop]
    omega
  · rfl

theorem length_storedBytes_le (home : Section) (g : SymbolGroup) :
    (storedBytes home g).length ≤ g.size.toNat := by
  unfold storedBytes
  split
  · simp only [List.extract_eq_take_drop, List.length_take, List.length_drop]
    omega
  · exact Nat.zero_le _

end Stored

/-! ## Rows of an extent -/

section Rows

variable {start : Nat} {data : Bytes} {rows : List Row}

/-- The rows show `data`, which stands at `start`, one piece after the other. A piece may be
empty: a value of a declared type takes one row, even if nothing is stored of it. -/
structure ShowPieces (start : Nat) (data : Bytes) (rows : List Row) : Prop where
  bytes_eq : rows.flatMap Row.bytes = data
  length_eq : ∀ row ∈ rows, row.length.toNat = row.bytes.length
  address_eq : ∀ (k : Nat) (row : Row), rows[k]? = some row →
    row.address.toNat = start + spanned (rows.take k)

theorem ShowBytes.showPieces (h : ShowBytes start data rows) : ShowPieces start data rows :=
  ⟨h.bytes_eq, h.length_eq, h.address_eq⟩

/-- The rows stay between the start of the data and its end. -/
theorem ShowPieces.bounds (h : ShowPieces start data rows) :
    ∀ row ∈ rows, start ≤ row.address.toNat ∧ row.stop ≤ start + data.length := by
  intro row hrow
  have htotal : spanned rows = data.length := by
    rw [spanned_eq_length h.length_eq, h.bytes_eq]
  obtain ⟨before, after, rfl⟩ := List.append_of_mem hrow
  have haddress := h.address_eq before.length row (by simp)
  rw [List.take_left] at haddress
  have hsum : spanned (before ++ row :: after) =
      spanned before + (row.length.toNat + spanned after) := by
    simp [spanned]
  rw [Row.stop]
  omega

theorem showPieces_singleton {address : UInt64} (text : String) (length : UInt64)
    (relocs : List RelocRow) (hfits : address.toNat + data.length < 2 ^ 64) :
    ShowPieces address.toNat data [(Row.ofBytes address data text).attach length relocs] := by
  refine ⟨by simp [Row.ofBytes], ?_, ?_⟩
  · simpa [Row.ofBytes] using toNat_ofNat_of_add_lt hfits
  · intro k row hrow
    obtain ⟨rfl, rfl⟩ : k = 0 ∧ (Row.ofBytes address data text).attach length relocs = row := by
      simpa [List.getElem?_singleton] using hrow
    rfl

theorem showPieces_declaredRows (ctx : Context) (name : String) (declaration : Declaration)
    (relocs : List RelocRow) {address : UInt64} (hfits : address.toNat + data.length < 2 ^ 64) :
    ShowPieces address.toNat data
      (declaredRows ctx name declaration relocs address (.present data)).rows := by
  cases declaration with
  | found type => exact showPieces_singleton _ _ relocs hfits
  | _ => exact (showBytes_byteRows ctx .data relocs hfits).showPieces

end Rows

/-! ## Pages of symbols -/

section Pages

variable {number : UInt64} {s : Symbol} {g : SymbolGroup} {home : Section}

/-- A symbol in a section has a page: its contents decoded, after what is said of missing bytes. -/
theorem exists_symbolView (ctx : Context) (hs : ctx.image.symbols[number.toNat]? = some s)
    (hg : ctx.index.groupOf? number.toNat = some g) (hhome : ctx.image.home? s = some home)
    (semantic : Semantic) (declaration : Declaration) :
    ∃ view decoded, symbolView ctx number semantic declaration = .ok view ∧
      view.rows = decoded.rows ∧
      view.warnings = missingContents s.name g.size (groupContents home g) ++ decoded.warnings ∧
      (decoded = declaredRows ctx s.name declaration (groupRelocRows ctx.index g) g.address
          (groupContents home g) ∨
        decoded = (groupContents home g).decode ctx semantic (groupRelocRows ctx.index g)
          g.address) := by
  have hplace : symbolPlace ctx number = .ok ⟨s, g, home⟩ :=
    symbolPlace_eq_ok_iff.mpr ⟨hs, hg, hhome⟩
  refine ⟨_, _, symbolView_eq_ok_iff.mpr ⟨_, hplace, rfl⟩, rfl, rfl, ?_⟩
  split
  · exact .inl rfl
  · exact .inr rfl

/-- Says how many of the bytes of an extent the file holds. -/
def missingText (name : String) (present total : Nat) : String :=
  name ++ ": only " ++ hex present ++ " of " ++ hex total ++ " bytes present in the file"

theorem isAbout_missingText (name : String) (present total : Nat) :
    IsAbout name (missingText name present total) := by
  simp [IsAbout, missingText]

theorem mem_missingBytes_iff {name w : String} {present : Nat} {size : UInt64} :
    w ∈ missingBytes name present size ↔
      present < size.toNat ∧ w = missingText name present size.toNat := by
  unfold missingBytes
  split
  · rename_i hlt
    simp [hlt, missingText]
  · rename_i hge
    simp [hge]

/-- The page shows what is stored of the extent of a group in a section. -/
structure ShowsExtent (home : Section) (g : SymbolGroup) (name : String) (view : RowView) :
    Prop where
  /-- The rows show the stored bytes, one row after the other from the address of the group on. -/
  pieces : ShowPieces g.address.toNat (storedBytes home g) view.rows
  /-- Nothing outside the extent is shown. -/
  inside : ∀ row ∈ view.rows,
    g.address.toNat ≤ row.address.toNat ∧ row.stop ≤ g.address.toNat + g.size.toNat
  /-- Missing bytes are warned of if and only if fewer are shown than the extent has. -/
  warned_iff : (∃ present total, missingText name present total ∈ view.warnings) ↔
    (view.rows.flatMap Row.bytes).length < g.size.toNat
  /-- The warning has the number of bytes that are shown. -/
  warned : (view.rows.flatMap Row.bytes).length < g.size.toNat →
    missingText name (view.rows.flatMap Row.bytes).length g.size.toNat ∈ view.warnings

theorem showsExtent_of_silent {view : RowView} {warnings : List String} {name : String}
    (hpieces : ShowPieces g.address.toNat (storedBytes home g) view.rows)
    (hwarnings : view.warnings = missingBytes name (storedBytes home g).length g.size ++ warnings)
    (hsilent : Silent name warnings) : ShowsExtent home g name view := by
  have hle := length_storedBytes_le home g
  constructor
  · exact hpieces
  · intro row hrow
    obtain ⟨hstart, hstop⟩ := hpieces.bounds row hrow
    omega
  · rw [hpieces.bytes_eq, hwarnings]
    constructor
    · rintro ⟨present, total, hmem⟩
      rcases List.mem_append.mp hmem with hmissing | hother
      · exact (mem_missingBytes_iff.mp hmissing).1
      · exact absurd (isAbout_missingText name present total) (hsilent _ hother)
    · intro hlt
      exact ⟨_, _, List.mem_append_left _ (mem_missingBytes_iff.mpr ⟨hlt, rfl⟩)⟩
  · rw [hpieces.bytes_eq, hwarnings]
    intro hlt
    exact List.mem_append_left _ (mem_missingBytes_iff.mpr ⟨hlt, rfl⟩)

/-- Whatever semantic type is asked for, and whatever is known of the declared type, the page of a
symbol in a section with bytes shows the bytes that the section stores of the extent of the symbol's
group. They stand in rows without gaps from the address of the group on, and missing bytes are
warned of. Instructions show all bytes whatever the decoder makes of them. -/
theorem symbol_rows_show_extent (image : Image) (host : Arch) (forceLongDouble : Bool)
    (number : UInt64) (s : Symbol) (home : Section) (hs : image.symbols[number.toNat]? = some s)
    (hdefined : s.isSectionDefined = true) (hhome : image.home? s = some home)
    (hbytes : home.isZeroFill = false) :
    ∃ g, (SymbolIndex.build image).groupOf? number.toNat = some g ∧ g.address = s.value ∧
      g.address.toNat + g.size.toNat < 2 ^ 64 ∧
      (∀ semantic declaration, ∃ view,
        symbolView ⟨SymbolIndex.build image, host, forceLongDouble⟩ number semantic declaration =
          .ok view ∧ ShowsExtent home g s.name view) ∧
      ∀ (decode : Code.Decoder) (relocs : List RelocRow),
        ShowBytes g.address.toNat (storedBytes home g)
          (codeRows decode relocs g.address (storedBytes home g)) := by
  obtain ⟨g, hg, hi⟩ :=
    SymbolIndex.mem_aliases_iff_defines.mpr (Image.defines_iff.mpr ⟨s, hs, hdefined⟩)
  have hgroup := SymbolIndex.groupOf?_build_eq_some_iff.mpr ⟨hg, hi⟩
  obtain ⟨s', hs', -, hvalue⟩ := SymbolIndex.exists_symbol_of_alias hg hi
  obtain rfl := Option.some.inj (hs.symm.trans hs')
  have hextent : g.address.toNat + g.size.toNat < 2 ^ 64 := SymbolIndex.build_fits hg
  have hfits : g.address.toNat + (storedBytes home g).length < 2 ^ 64 := by
    have hle := length_storedBytes_le home g
    omega
  refine ⟨g, hgroup, hvalue.symm, hextent, fun semantic declaration => ?_, fun decode relocs => ?_⟩
  · obtain ⟨view, decoded, hview, hrows, hwarnings, hdecoded⟩ :=
      exists_symbolView ⟨SymbolIndex.build image, host, forceLongDouble⟩ hs hgroup hhome semantic
        declaration
    rw [groupContents_eq hbytes] at hwarnings hdecoded
    refine ⟨view, hview, showsExtent_of_silent ?_ hwarnings ?_⟩
    · rw [hrows]
      rcases hdecoded with rfl | rfl
      · exact showPieces_declaredRows _ s.name declaration _ hfits
      · exact (showBytes_byteRows _ semantic _ hfits).showPieces
    · rcases hdecoded with rfl | rfl
      · exact silent_declaredRows _ declaration _ _ _
      · exact silent_decode _ semantic _ _ _
  · exact showBytes_codeRows decode relocs hfits

/-- Code that the file cuts off. -/
def sharedText : Section :=
  ⟨1, "__TEXT", "__text", 0x1000, 4, 0, 0, 0, 0, 0x80000000, [0x90, 0x90, 0xc3], []⟩

/-- Data of which the file holds two bytes out of eight. -/
def sharedData : Section := ⟨2, "__DATA", "__data", 0x1004, 8, 0, 0, 0, 0, 0, [1, 2], []⟩

/-- The label at the end of the code has the address, and so the extent, of the data. -/
def sharedImage : Image :=
  Image.ofParts 0x1000007 3 1 0 .little [sharedText, sharedData]
    [⟨"_value", 0xf, 2, 0, 0x1004⟩, ⟨"_etext", 0xf, 1, 0, 0x1004⟩]

theorem shared_rows_show_extent :
    (sharedData.isZeroFill = false ∧ ∃ g, (SymbolIndex.build sharedImage).groupOf? 0 = some g ∧
      ∀ semantic declaration, ∃ view,
        symbolView ⟨SymbolIndex.build sharedImage, .x86_64, false⟩ 0 semantic declaration =
          .ok view ∧ ShowsExtent sharedData g "_value" view) ∧
    sharedText.isZeroFill = false ∧ ∃ g, (SymbolIndex.build sharedImage).groupOf? 1 = some g ∧
      ∀ semantic declaration, ∃ view,
        symbolView ⟨SymbolIndex.build sharedImage, .x86_64, false⟩ 1 semantic declaration =
          .ok view ∧ ShowsExtent sharedText g "_etext" view := by
  obtain ⟨g, hg, -, -, hvalue, -⟩ :=
    symbol_rows_show_extent sharedImage .x86_64 false 0 ⟨"_value", 0xf, 2, 0, 0x1004⟩ sharedData rfl
      (by decide) (by decide) (by decide)
  obtain ⟨h, hh, -, -, hlabel, -⟩ :=
    symbol_rows_show_extent sharedImage .x86_64 false 1 ⟨"_etext", 0xf, 1, 0, 0x1004⟩ sharedText rfl
      (by decide) (by decide) (by decide)
  exact ⟨⟨by decide, g, hg, hvalue⟩, by decide, h, hh, hlabel⟩

end Pages

end MachInspect.View
