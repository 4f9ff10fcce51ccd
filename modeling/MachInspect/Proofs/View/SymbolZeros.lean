-- SUMMARY: Which pages of zero-fill symbols account for all zeros of the extent.
import MachInspect.Proofs.View.SymbolRows

/-!
# Rows of zero-fill symbols

The rows of a zero-fill symbol have no bytes, so their lengths alone say what the page stands for.
As data, or through any other semantic type but the declared one, the lengths add up to the extent
of the symbol's group. The one row for a value of a declared type gets its length from its bytes,
that is, none: it stands for all of the extent only if the extent is empty.
-/
namespace MachInspect.View

open Value

/-! ## Rows of zeros -/

section Rows

variable (ctx : Context) {start length : Nat} {rows : List Row}

/-- The rows stand for `length` zeros from `start` on, one after the other. -/
structure CoverZeros (start length : Nat) (rows : List Row) : Prop where
  no_bytes : ∀ row ∈ rows, row.bytes = []
  address_eq : ∀ (k : Nat) (row : Row), rows[k]? = some row →
    row.address.toNat = start + spanned (rows.take k)
  spanned_eq : spanned rows = length

theorem ShowZeros.coverZeros {limit : Nat} (h : ShowZeros start length limit rows) :
    CoverZeros start length rows :=
  ⟨h.no_bytes, h.address_eq, h.spanned_eq⟩

theorem coverZeros_decode (semantic : Semantic) (relocs : List RelocRow) {address size : UInt64}
    (hfits : address.toNat + size.toNat < 2 ^ 64) :
    CoverZeros address.toNat size.toNat
      ((Contents.zeroFill size).decode ctx semantic relocs address).rows :=
  (showZeros_zeroRows (.inl (by decide)) hfits).coverZeros

/-- The row of a value of a declared type has length zero, whether the value is shown or not. -/
theorem coverZeros_typedRow_iff (name : String) (type : ValueType) (relocs : List RelocRow)
    (address size : UInt64) :
    CoverZeros address.toNat size.toNat
      (typedRow ctx name type relocs address (.zeroFill size)).rows ↔ size = 0 := by
  obtain ⟨text, hrows⟩ : ∃ text, (typedRow ctx name type relocs address (.zeroFill size)).rows =
      [(Row.ofBytes address [] text).attach size relocs] := ⟨_, rfl⟩
  rw [hrows]
  constructor
  · intro h
    exact UInt64.toNat_inj.mp h.spanned_eq.symm
  · rintro rfl
    have hpieces : ShowPieces address.toNat [] [(Row.ofBytes address [] text).attach 0 relocs] :=
      showPieces_singleton text 0 relocs address.toNat_lt
    exact ⟨by simp [Row.ofBytes], hpieces.address_eq, rfl⟩

/-- Without a declared type that is known, the symbol is shown as data. -/
theorem coverZeros_declaredRows_iff (name : String) (declaration : Declaration)
    (relocs : List RelocRow) {address size : UInt64}
    (hfits : address.toNat + size.toNat < 2 ^ 64) :
    CoverZeros address.toNat size.toNat
      (declaredRows ctx name declaration relocs address (.zeroFill size)).rows ↔
      size = 0 ∨ ∀ type, declaration ≠ .found type := by
  cases declaration with
  | found type =>
    rw [declaredRows, coverZeros_typedRow_iff]
    simp
  | _ => exact iff_of_true (coverZeros_decode ctx .data relocs hfits) (.inr (by simp))

end Rows

/-! ## Pages of symbols -/

section Pages

variable {number : UInt64} {s : Symbol} {g : SymbolGroup} {home : Section}

theorem coverZeros_symbolView_iff (ctx : Context)
    (hs : ctx.image.symbols[number.toNat]? = some s)
    (hg : ctx.index.groupOf? number.toNat = some g) (hhome : ctx.image.home? s = some home)
    (hzeros : home.isZeroFill = true) (hfits : g.address.toNat + g.size.toNat < 2 ^ 64)
    (semantic : Semantic) (declaration : Declaration) :
    ∃ view, symbolView ctx number semantic declaration = .ok view ∧
      (CoverZeros g.address.toNat g.size.toNat view.rows ↔
        semantic ≠ .declared ∨ g.size = 0 ∨ ∀ type, declaration ≠ .found type) := by
  have hcontents : groupContents home g = .zeroFill g.size := by rw [groupContents, if_pos hzeros]
  have hplace : symbolPlace ctx number = .ok ⟨s, g, home⟩ :=
    symbolPlace_eq_ok_iff.mpr ⟨hs, hg, hhome⟩
  refine ⟨_, symbolView_eq_ok_iff.mpr ⟨_, hplace, rfl⟩, ?_⟩
  simp only [Place.view, hcontents]
  by_cases hsemantic : semantic = .declared
  · rw [if_pos hsemantic, coverZeros_declaredRows_iff ctx _ _ _ hfits]
    simp [hsemantic]
  · rw [if_neg hsemantic]
    exact iff_of_true (coverZeros_decode ctx semantic (groupRelocRows ctx.index g) hfits)
      (.inl hsemantic)

/-- The page of a symbol in a zero-fill section has rows without bytes, one after the other from the
symbol's value on, whose lengths add up to the size of its group, for each semantic type and all
that can be known of the declared type, with one exception: a declared type that is known, where the
extent is not empty. There the lengths do not add up, whether a value of the type can be shown or
not. -/
theorem symbol_zeros_covered_iff (image : Image) (host : Arch) (forceLongDouble : Bool)
    (number : UInt64) (s : Symbol) (home : Section) (hs : image.symbols[number.toNat]? = some s)
    (hdefined : s.isSectionDefined = true) (hhome : image.home? s = some home)
    (hzeros : home.isZeroFill = true) :
    ∃ g, (SymbolIndex.build image).groupOf? number.toNat = some g ∧ g.address = s.value ∧
      g.address.toNat + g.size.toNat < 2 ^ 64 ∧
      ∀ semantic declaration, ∃ view,
        symbolView ⟨SymbolIndex.build image, host, forceLongDouble⟩ number semantic declaration =
          .ok view ∧
        (CoverZeros s.value.toNat g.size.toNat view.rows ↔
          semantic ≠ .declared ∨ g.size = 0 ∨ ∀ type, declaration ≠ .found type) := by
  obtain ⟨g, hg, hi⟩ :=
    SymbolIndex.mem_aliases_iff_defines.mpr (Image.defines_iff.mpr ⟨s, hs, hdefined⟩)
  have hgroup := SymbolIndex.groupOf?_build_eq_some_iff.mpr ⟨hg, hi⟩
  obtain ⟨s', hs', -, hvalue⟩ := SymbolIndex.exists_symbol_of_alias hg hi
  obtain rfl := Option.some.inj (hs.symm.trans hs')
  have hfits : g.address.toNat + g.size.toNat < 2 ^ 64 := SymbolIndex.build_fits hg
  refine ⟨g, hgroup, hvalue.symm, hfits, fun semantic declaration => ?_⟩
  rw [hvalue]
  exact coverZeros_symbolView_iff ⟨SymbolIndex.build image, host, forceLongDouble⟩ hs hgroup hhome
    hzeros hfits semantic declaration

/-- Four bytes that the file leaves out. -/
def counterSection : Section := ⟨1, "__DATA", "__bss", 0x2000, 4, 0, 0, 0, 0, 1, [], []⟩

/-- A variable in them. -/
def counterSymbol : Symbol := ⟨"_count", 0xf, 1, 0, 0x2000⟩

def counterImage : Image :=
  Image.ofParts 0x1000007 3 1 0 .little [counterSection] [counterSymbol]

theorem counterImage_group :
    (SymbolIndex.build counterImage).groupOf? 0 = some ⟨0x2000, 4, [0], []⟩ := by
  have hgroups : counterImage.groupSorted counterImage.addressedSymbols = [⟨0x2000, 4, [0], []⟩] :=
    Image.groupSorted_addressedSymbols (by decide) (by decide)
  rw [SymbolIndex.build, hgroups]
  rfl

theorem counter_zeros_covered :
    counterSection.isZeroFill = true ∧ ∀ semantic, ∃ view,
      symbolView ⟨SymbolIndex.build counterImage, .x86_64, false⟩ 0 semantic .absent = .ok view ∧
        CoverZeros 0x2000 4 view.rows := by
  obtain ⟨g, hg, -, -, hview⟩ :=
    symbol_zeros_covered_iff counterImage .x86_64 false 0 counterSymbol counterSection rfl
      (by decide) (by decide) (by decide)
  obtain rfl := Option.some.inj (hg.symm.trans counterImage_group)
  refine ⟨by decide, fun semantic => ?_⟩
  obtain ⟨view, hok, hcovers⟩ := hview semantic .absent
  exact ⟨view, hok, hcovers.mpr (.inr (.inr (by simp)))⟩

/-- Four zeros as a number: the only row has no length. -/
theorem counter_value_has_no_length :
    counterSection.isZeroFill = true ∧ ∃ g view,
      (SymbolIndex.build counterImage).groupOf? 0 = some g ∧ g.size = 4 ∧
      symbolView ⟨SymbolIndex.build counterImage, .x86_64, false⟩ 0 .declared
        (.found (.scalar "int" (some 4) .int)) = .ok view ∧
      ¬ CoverZeros 0x2000 4 view.rows := by
  have hs : counterImage.symbols[UInt64.toNat 0]? = some counterSymbol := rfl
  have hhome : counterImage.home? counterSymbol = some counterSection := by decide
  obtain ⟨view, hview, hcovers⟩ :=
    coverZeros_symbolView_iff ⟨SymbolIndex.build counterImage, .x86_64, false⟩ hs
      counterImage_group hhome (by decide) (by decide) .declared
      (.found (.scalar "int" (some 4) .int))
  refine ⟨by decide, _, view, counterImage_group, rfl, hview, fun h => ?_⟩
  simpa using hcovers.mp h

end Pages

end MachInspect.View
