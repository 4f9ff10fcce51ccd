-- SUMMARY: Which rows are highlighted when an address is opened.
import Mathlib.Data.UInt
import MachInspect.Proofs.Session.SectionNumbers
import MachInspect.Proofs.Symbols.Groups
import MachInspect.Proofs.View.Ranges

/-!
# Highlighting

An anchor to an address opens the section around it and highlights the rows that meet the range of
the anchor. Rows follow each other, so these are neighbours, and the first of them holds the address.
-/
namespace MachInspect

namespace View

/-! ## Rows that meet a range -/

/-- First address past a range. One that is empty takes a single byte, and none goes past the last
address. -/
def Focus.stop (f : Focus) : Nat := min (f.address.toNat + max f.size.toNat 1) (2 ^ 64 - 1)

/-- The highlighted rows are the ones that meet the range. They are the rows from position `first` up
to position `past`, and the row at `first` is the one that holds the start of the range. -/
structure Highlighted (view : RowView) (f : Focus) (first past : Nat) : Prop where
  nonempty : first < past
  le_length : past ≤ view.rows.length
  focused_iff_meets : ∀ row ∈ view.rows,
    row.focused = true ↔ row.Meets f.address.toNat f.stop
  focused_iff_between : ∀ (k : Nat) (row : Row), view.rows[k]? = some row →
    (row.focused = true ↔ first ≤ k ∧ k < past)
  spans_iff : ∀ (k : Nat) (row : Row), view.rows[k]? = some row →
    (row.Spans f.address.toNat ↔ k = first)
  firstFocused?_eq : view.firstFocused? = some first

section Ranges

variable {view : RowView} {f : Focus} {start : Nat} {row : Row}

theorem Focus.overlaps_iff (hlength : 0 < row.length.toNat) (hfits : row.stop < 2 ^ 64) :
    f.overlaps row.address row.length = true ↔
      row.address.toNat < f.stop ∧ f.address.toNat < row.stop := by
  have hstop : min (row.address.toNat + max row.length.toNat 1) (2 ^ 64 - 1) = row.stop := by
    rw [Row.stop] at hfits ⊢
    omega
  simp only [Focus.overlaps, Bool.and_eq_true, decide_eq_true_eq, UInt64.lt_iff_toNat_lt,
    toNat_saturatingAdd, UInt64.toNat_max, UInt64.toNat_one, hstop, Focus.stop]

theorem follow_focus (h : Follow start view.rows) : Follow start (view.focus f).rows :=
  h.map (fun _ => rfl) (fun _ => rfl)

theorem spanned_focus : spanned (view.focus f).rows = spanned view.rows := by
  simp [RowView.focus, spanned, Function.comp_def]

theorem focused_focus (hrow : row ∈ (view.focus f).rows) :
    row.focused = f.overlaps row.address row.length := by
  obtain ⟨bare, -, rfl⟩ := List.mem_map.mp hrow
  rfl

theorem firstFocused?_of_between {first past : Nat} (hlt : first < past)
    (hle : past ≤ view.rows.length)
    (hbetween : ∀ (k : Nat) (row : Row), view.rows[k]? = some row →
      (row.focused = true ↔ first ≤ k ∧ k < past)) : view.firstFocused? = some first := by
  refine List.findIdx?_eq_some_iff_getElem.mpr ⟨by omega, ?_, fun k hk => ?_⟩
  · exact (hbetween first _ (List.getElem?_eq_getElem _)).mpr ⟨Nat.le_refl _, hlt⟩
  · rw [hbetween k _ (List.getElem?_eq_getElem _)]
    omega

/-- A range that starts inside rows that follow each other is highlighted from its start on. -/
theorem exists_highlighted (h : Follow start view.rows)
    (hfits : start + spanned view.rows < 2 ^ 64) (hlo : start ≤ f.address.toNat)
    (hhi : f.address.toNat < start + spanned view.rows) :
    ∃ first past, Highlighted (view.focus f) f first past := by
  have hfollow : Follow start (view.focus f).rows := follow_focus h
  rw [← spanned_focus (f := f)] at hfits hhi
  have hrange : f.address.toNat < f.stop := by
    rw [Focus.stop]
    omega
  have hfocused : ∀ row ∈ (view.focus f).rows,
      row.focused = true ↔ row.address.toNat < f.stop ∧ f.address.toNat < row.stop := by
    intro row hrow
    have hend := hfollow.stop_le row hrow
    rw [focused_focus hrow]
    exact Focus.overlaps_iff (hfollow.nonempty row hrow) (by omega)
  -- the block goes from the row of the start to the last row that starts before the end
  obtain ⟨first, home, hhome, hspans⟩ := hfollow.exists_spans hlo hhi
  obtain ⟨past, hpast, hcut⟩ := hfollow.exists_cut f.stop
  have hfirst : first < past := (hcut first home hhome).mp (Nat.lt_of_le_of_lt hspans.1 hrange)
  have hbetween : ∀ (k : Nat) (row : Row), (view.focus f).rows[k]? = some row →
      (row.focused = true ↔ first ≤ k ∧ k < past) := by
    intro k row hrow
    rw [hfocused row (List.mem_of_getElem? hrow), hcut k row hrow,
      hfollow.lt_stop_iff hhome hspans hrow, and_comm]
  exact ⟨first, past,
    { nonempty := hfirst
      le_length := hpast
      focused_iff_meets := fun row hrow => by
        rw [hfocused row hrow, Row.meets_iff (hfollow.nonempty row hrow) hrange]
      focused_iff_between := hbetween
      spans_iff := fun _ _ => hfollow.spans_iff hhome hspans
      firstFocused?_eq := firstFocused?_of_between hfirst hpast hbetween }⟩

end Ranges

end View

namespace Session

open View

/-! ## Anchors to addresses -/

section Anchors

variable {image : Image} {options : Options} {address : UInt64} {home : Section}

/-- The section that is found contains the address. -/
theorem contains_of_sectionContaining? (himage : image.Numbered) (hhome : home ∈ image.sections)
    (hcontaining : (start image options).sectionContaining? address = some home.index) :
    home.contains address = true := by
  obtain ⟨found, hfound, hindex⟩ := Option.map_eq_some_iff.mp hcontaining
  have hmem : found ∈ image.sections := List.mem_of_find?_eq_some hfound
  obtain rfl : found = home := himage.eq_of_index_eq hmem hhome hindex
  exact List.find?_some (p := fun s : Section => s.contains address) hfound

theorem sectionPageOf_of_ne {semantic : Semantic} (h : semantic ≠ .ehFrame) :
    sectionPageOf image options home semantic =
      .rows (sectionView (contextOf image options) home semantic) := by
  cases semantic with
  | ehFrame => exact absurd rfl h
  | _ => rfl

/-- An anchor to an address leads to the page of the section that is found. -/
theorem anchorOf_address (himage : image.Addressable) (hhome : home ∈ image.sections)
    (hcontaining : (start image options).sectionContaining? address = some home.index)
    (size : UInt64) :
    anchorOf image options (.address address size) =
      .ok ((sectionPageOf image options home (Semantic.ofSection image home)).focus
        ⟨address, size⟩) := by
  have hsection : image.sectionAt? (UInt64.ofNat home.index).toUInt32 = some home := by
    obtain ⟨-, hindex, -⟩ := himage.numbered.getElem?_of_mem hhome
    have hfew := himage.length_lt
    refine himage.numbered.sectionAt?_of_mem hhome ?_
    rw [UInt64.toNat_toUInt32, UInt64.toNat_ofNat']
    omega
  rw [anchorOf, hcontaining]
  simp only [sectionRequestOf, sectionSemanticOf, pageOf, hsection]
  rfl

/-- The answer is that page with the range highlighted, whatever was asked before. -/
theorem openAnchor_address_after (himage : image.Addressable) (earlier : List Request)
    (hhome : home ∈ image.sections)
    (hfound : (start image options).sectionContaining? address = some home.index)
    (hguess : Semantic.ofSection image home ≠ .ehFrame) (size : UInt64) :
    ((Request.openAnchor (.address address size)).run ((start image options).after earlier)).1 =
      .ok (.page (.rows ((sectionView (contextOf image options) home
        (Semantic.ofSection image home)).focus ⟨address, size⟩))) := by
  rw [answer_after, answerOf, anchorOf_address himage hhome hfound, sectionPageOf_of_ne hguess]
  rfl

/-- Where the rows of the section that is found go all the way through, the range of the anchor is
highlighted from its start on. -/
theorem exists_highlighted_sectionView (himage : image.Numbered) (hhome : home ∈ image.sections)
    (hfound : (start image options).sectionContaining? address = some home.index)
    (hfits : home.addr.toNat + home.size.toNat < 2 ^ 64)
    (hstored : home.isZeroFill = true ∨ home.size.toNat ≤ home.data.length)
    (semantic : Semantic) (size : UInt64) :
    ∃ first past,
      Highlighted ((sectionView (contextOf image options) home semantic).focus ⟨address, size⟩)
        ⟨address, size⟩ first past := by
  obtain ⟨hstart, hlimit⟩ :=
    Section.contains_iff.mp (contains_of_sectionContaining? himage hhome hfound)
  rw [Section.limit, toNat_saturatingAdd] at hlimit
  let view := sectionView (contextOf image options) home semantic
  obtain ⟨hfollow, hspanned⟩ : Follow home.addr.toNat view.rows ∧
      spanned view.rows = home.size.toNat := follow_sectionView hstored hfits
  have hend : home.addr.toNat + spanned view.rows < 2 ^ 64 := by omega
  have hinside : address.toNat < home.addr.toNat + spanned view.rows := by omega
  exact exists_highlighted hfollow hend hstart hinside

/-- An anchor to an address in a section whose rows go all the way through opens the page of that
section. There the rows that meet the range are highlighted. They are neighbours, and the first of
them is the one that holds the address. -/
theorem address_anchor_highlights_range (himage : image.Addressable) (options : Options)
    (earlier : List Request) (address size : UInt64) (home : Section)
    (hhome : home ∈ image.sections)
    (hcontaining :
      ((start image options).after earlier).sectionContaining? address = some home.index)
    (hfits : home.addr.toNat + home.size.toNat < 2 ^ 64)
    (hstored : home.isZeroFill = true ∨ home.size.toNat ≤ home.data.length)
    (hguess : Semantic.ofSection image home ≠ .ehFrame) :
    let view := sectionView (contextOf image options) home (Semantic.ofSection image home)
    ((Request.openAnchor (.address address size)).run ((start image options).after earlier)).1 =
        .ok (.page (.rows (view.focus ⟨address, size⟩))) ∧
      ∃ first past, Highlighted (view.focus ⟨address, size⟩) ⟨address, size⟩ first past := by
  intro view
  have hfound : (start image options).sectionContaining? address = some home.index := by
    rw [sectionContaining?, ((consistent_start image options).after earlier).image_eq] at hcontaining
    exact hcontaining
  exact ⟨openAnchor_address_after himage earlier hhome hfound hguess size,
    exists_highlighted_sectionView himage.numbered hhome hfound hfits hstored _ size⟩

/-- In every file that can be read, an anchor to an address leads to highlighted rows if its section
is the first around the address and its rows go all the way through. -/
theorem openAnchor_highlighted_of_read {file : Bytes}
    (hread : Image.read options.host file = .ok image) (earlier : List Request) (size : UInt64)
    (hfirst : image.sections.find? (·.contains address) = some home)
    (hfits : home.addr.toNat + home.size.toNat < 2 ^ 64)
    (hstored : home.isZeroFill = true ∨ home.size.toNat ≤ home.data.length)
    (hguess : Semantic.ofSection image home ≠ .ehFrame) :
    ∃ view first past,
      ((Request.openAnchor (.address address size)).run ((start image options).after earlier)).1 =
          .ok (.page (.rows view)) ∧
        Highlighted view ⟨address, size⟩ first past := by
  have himage : image.Addressable := Image.read_addressable hread
  have hhome : home ∈ image.sections := List.mem_of_find?_eq_some hfirst
  have hfound : (start image options).sectionContaining? address = some home.index :=
    congrArg (Option.map Section.index) hfirst
  obtain ⟨first, past, hshown⟩ :=
    exists_highlighted_sectionView himage.numbered hhome hfound hfits hstored
      (Semantic.ofSection image home) size
  exact ⟨_, first, past, openAnchor_address_after himage earlier hhome hfound hguess size, hshown⟩

/-- Three rows of data. -/
def wordsData : Section :=
  ⟨2, "__DATA", "__data", 0x2000, 24, 0, 0, 0, 0, 0, List.replicate 24 0, []⟩

def wordsImage : Image :=
  Image.ofParts 0x1000007 3 1 0 .little
    [⟨1, "__TEXT", "__text", 0x1000, 1, 0, 0, 0, 0, 0x80000000, [0xc3], []⟩, wordsData]
    [⟨"_words", 0xf, 2, 0, 0x2000⟩]

/-- Eight bytes from the middle of the second row on. -/
theorem words_anchor_highlights_range :
    wordsImage.Addressable ∧ (start wordsImage plainOptions).sectionContaining? 0x2009 = some 2 ∧
    ∃ view first past,
      ((Request.openAnchor (.address 0x2009 8)).run (start wordsImage plainOptions)).1 =
        .ok (.page (.rows view)) ∧
      Highlighted view ⟨0x2009, 8⟩ first past ∧
      view.rows.map Row.focused = [false, true, true] := by
  have himage : wordsImage.Addressable := Image.ofParts_addressable _ _ _ _ _ _ (by decide)
  obtain ⟨hview, first, past, hshown⟩ :=
    address_anchor_highlights_range himage plainOptions [] 0x2009 8 wordsData
      (by decide) (by decide) (by decide) (by decide) (by decide)
  refine ⟨himage, by decide, _, first, past, hview, hshown, ?_⟩
  change ((dataRows _ _ _).map _).map Row.focused = _
  simp +decide [dataRows, chunks, layOut, sectionBytes, wordsData, dataWidth, Row.ofBytes,
    Row.attach]

end Anchors

end Session

end MachInspect
