-- SUMMARY: Which row of a view an address or a range of addresses lies in.
import MachInspect.Proofs.View.Tiling

/-!
# Addresses and rows

Rows that follow each other share no address and leave none out. So each address of a view is in one
row, and a range of addresses lies in one row unless another row starts inside the range.
-/
namespace MachInspect.View

namespace Row

/-- First address past the row. -/
def stop (row : Row) : Nat := row.address.toNat + row.length.toNat

/-- The address is one of the row's. -/
def Spans (row : Row) (a : Nat) : Prop := row.address.toNat ≤ a ∧ a < row.stop

/-- All addresses from `lo` up to `hi` are the row's. -/
def Holds (row : Row) (lo hi : Nat) : Prop := row.address.toNat ≤ lo ∧ hi ≤ row.stop

instance (row : Row) (lo hi : Nat) : Decidable (row.Holds lo hi) :=
  inferInstanceAs (Decidable (_ ∧ _))

/-- Some address from `lo` up to `hi` is the row's. -/
def Meets (row : Row) (lo hi : Nat) : Prop := ∃ a, row.Spans a ∧ lo ≤ a ∧ a < hi

/-- Ranges that are not empty meet if each starts before the other stops. -/
theorem meets_iff {row : Row} {lo hi : Nat} (hlength : 0 < row.length.toNat) (hlt : lo < hi) :
    row.Meets lo hi ↔ row.address.toNat < hi ∧ lo < row.stop := by
  constructor
  · rintro ⟨a, ⟨hstart, hstop⟩, hlo, hhi⟩
    exact ⟨Nat.lt_of_le_of_lt hstart hhi, Nat.lt_of_le_of_lt hlo hstop⟩
  · rintro ⟨hstart, hstop⟩
    -- the later of the two starts is in both
    have hrow : row.address.toNat < row.stop := Nat.lt_add_of_pos_right hlength
    exact ⟨max row.address.toNat lo, ⟨by omega, by omega⟩, by omega, by omega⟩

end Row

section Following

variable {start a lo hi : Nat} {row : Row} {rows : List Row} {data : Bytes}

theorem follow_cons_iff :
    Follow start (row :: rows) ↔
      row.address.toNat = start ∧ 0 < row.length.toNat ∧ Follow row.stop rows := by
  constructor
  · intro h
    have haddress : row.address.toNat = start := by simpa using h.address_eq 0 row rfl
    refine ⟨haddress, h.nonempty row List.mem_cons_self, ?_, ?_⟩
    · exact fun r hr => h.nonempty r (List.mem_cons_of_mem _ hr)
    · intro k r hr
      rw [h.address_eq (k + 1) r (by simpa using hr), Row.stop, haddress]
      simp [Nat.add_assoc]
  · rintro ⟨rfl, hlength, h⟩
    exact Follow.cons rfl hlength h

theorem address_add_spanned_cons (row : Row) (rows : List Row) :
    row.address.toNat + spanned (row :: rows) = row.stop + spanned rows := by
  rw [spanned_cons, Row.stop, Nat.add_assoc]

/-- Rows that stand for their own bytes stand for all of them. -/
theorem spanned_eq_length (h : ∀ row ∈ rows, row.length.toNat = row.bytes.length) :
    spanned rows = (rows.flatMap Row.bytes).length := by
  rw [List.length_flatMap, spanned]
  exact congrArg List.sum (List.map_congr_left h)

theorem ShowBytes.spanned_eq (h : ShowBytes start data rows) : spanned rows = data.length := by
  rw [spanned_eq_length h.length_eq, h.bytes_eq]

namespace Follow

theorem start_le (h : Follow start rows) : ∀ row ∈ rows, start ≤ row.address.toNat := by
  intro row hrow
  obtain ⟨k, hk, rfl⟩ := List.getElem_of_mem hrow
  rw [h.address_eq k _ (List.getElem?_eq_getElem hk)]
  exact Nat.le_add_right _ _

/-- A row ends before all later rows start. -/
theorem pairwise (h : Follow start rows) :
    rows.Pairwise fun row later => row.stop ≤ later.address.toNat := by
  induction rows generalizing start with
  | nil => exact .nil
  | cons row rest ih =>
    obtain ⟨-, -, hrest⟩ := follow_cons_iff.mp h
    exact .cons hrest.start_le (ih hrest)

theorem stop_le_of_lt (h : Follow start rows) {j k : Nat} {later : Row} (hj : rows[j]? = some row)
    (hk : rows[k]? = some later) (hlt : j < k) : row.stop ≤ later.address.toNat := by
  obtain ⟨hj', rfl⟩ := List.getElem?_eq_some_iff.mp hj
  obtain ⟨hk', rfl⟩ := List.getElem?_eq_some_iff.mp hk
  exact List.pairwise_iff_getElem.mp h.pairwise j k hj' hk' hlt

theorem stop_le (h : Follow start rows) : ∀ row ∈ rows, row.stop ≤ start + spanned rows := by
  induction rows generalizing start with
  | nil => simp
  | cons first rest ih =>
    obtain ⟨rfl, -, hrest⟩ := follow_cons_iff.mp h
    rw [address_add_spanned_cons]
    exact List.forall_mem_cons.mpr ⟨Nat.le_add_right _ _, ih hrest⟩

/-- An address of the rows is in one of them, the earlier rows end before the address, and the later
ones follow and stand for the rest. -/
theorem exists_split (h : Follow start rows) (hlo : start ≤ a) (hhi : a < start + spanned rows) :
    ∃ before row after, rows = before ++ row :: after ∧ row.Spans a ∧
      (∀ earlier ∈ before, earlier.stop ≤ a) ∧ Follow row.stop after ∧
      start + spanned rows = row.stop + spanned after := by
  induction rows generalizing start with
  | nil =>
    rw [spanned_nil] at hhi
    omega
  | cons first rest ih =>
    obtain ⟨rfl, -, hrest⟩ := follow_cons_iff.mp h
    rw [address_add_spanned_cons] at hhi ⊢
    rcases Nat.lt_or_ge a first.stop with hlt | hge
    · exact ⟨[], first, rest, rfl, ⟨hlo, hlt⟩, by simp, hrest, rfl⟩
    · obtain ⟨before, row, after, rfl, hspans, hbefore, hafter, hsum⟩ := ih hrest hge hhi
      refine ⟨first :: before, row, after, rfl, hspans, ?_, hafter, hsum⟩
      exact List.forall_mem_cons.mpr ⟨hge, hbefore⟩

theorem exists_spans (h : Follow start rows) (hlo : start ≤ a) (hhi : a < start + spanned rows) :
    ∃ (k : Nat) (row : Row), rows[k]? = some row ∧ row.Spans a := by
  obtain ⟨before, row, after, rfl, hspans, -, -, -⟩ := h.exists_split hlo hhi
  exact ⟨before.length, row, by simp, hspans⟩

/-- The rows that end after an address are those from its own row on. -/
theorem lt_stop_iff (h : Follow start rows) {j k : Nat} {other : Row} (hj : rows[j]? = some row)
    (hspans : row.Spans a) (hk : rows[k]? = some other) : a < other.stop ↔ j ≤ k := by
  obtain ⟨hstart, hstop⟩ := hspans
  constructor
  · intro hlt
    refine Nat.le_of_not_lt fun hbefore => ?_
    have := h.stop_le_of_lt hk hj hbefore
    omega
  · intro hle
    rcases Nat.lt_or_eq_of_le hle with hlt | rfl
    · have := h.stop_le_of_lt hj hk hlt
      rw [Row.stop]
      omega
    · cases hj.symm.trans hk
      exact hstop

/-- Only one row has an address. -/
theorem spans_iff (h : Follow start rows) {j k : Nat} {other : Row} (hj : rows[j]? = some row)
    (hspans : row.Spans a) (hk : rows[k]? = some other) : other.Spans a ↔ k = j := by
  constructor
  · intro hother
    have hle : j ≤ k := (h.lt_stop_iff hj hspans hk).mp hother.2
    have hge : k ≤ j := (h.lt_stop_iff hk hother hj).mp hspans.2
    exact Nat.le_antisymm hge hle
  · rintro rfl
    cases hj.symm.trans hk
    exact hspans

/-- The rows that start before an address come first. -/
theorem exists_cut (h : Follow start rows) (hi : Nat) :
    ∃ n, n ≤ rows.length ∧ ∀ (k : Nat) (row : Row), rows[k]? = some row →
      (row.address.toNat < hi ↔ k < n) := by
  induction rows generalizing start with
  | nil => exact ⟨0, Nat.le_refl 0, by simp⟩
  | cons first rest ih =>
    obtain ⟨rfl, -, hrest⟩ := follow_cons_iff.mp h
    rcases Nat.lt_or_ge first.address.toNat hi with hlt | hge
    · obtain ⟨n, hn, hcut⟩ := ih hrest
      refine ⟨n + 1, Nat.succ_le_succ hn, fun k row hrow => ?_⟩
      cases k with
      | zero =>
        cases hrow
        simp [hlt]
      | succ k => rw [hcut k row (by simpa using hrow), Nat.add_lt_add_iff_right]
    · refine ⟨0, Nat.zero_le _, fun k row hrow => ?_⟩
      have hstart := h.start_le row (List.mem_of_getElem? hrow)
      omega

/-- The row that starts inside a range is apart from every row that would hold the range. -/
theorem not_holds_of_starts_inside (h : Follow start rows) {inner : Row} (hrow : row ∈ rows)
    (hinner : inner ∈ rows) (hlo : lo < inner.address.toNat) (hhi : inner.address.toNat < hi) :
    ¬ row.Holds lo hi := by
  rintro ⟨hstart, hstop⟩
  obtain ⟨j, hj⟩ := List.mem_iff_getElem?.mp hrow
  obtain ⟨k, hk⟩ := List.mem_iff_getElem?.mp hinner
  have hpos := h.nonempty inner hinner
  have hown : inner.Spans inner.address.toNat := ⟨Nat.le_refl _, Nat.lt_add_of_pos_right hpos⟩
  have hother : row.Spans inner.address.toNat := ⟨by omega, by omega⟩
  obtain rfl : k = j := (h.spans_iff hj hother hk).mp hown
  cases hj.symm.trans hk
  omega

/-- A range inside the rows lies in one of them, or a row starts in its middle. -/
theorem holds_or_starts_inside (h : Follow start rows) (hlo : start ≤ lo) (hlt : lo < hi)
    (hhi : hi ≤ start + spanned rows) :
    (∃ row ∈ rows, row.Holds lo hi) ∨
      ∃ row ∈ rows, lo < row.address.toNat ∧ row.address.toNat < hi := by
  obtain ⟨before, row, after, rfl, ⟨hstart, hstop⟩, -, hafter, hsum⟩ :=
    h.exists_split hlo (by omega)
  rcases Nat.lt_or_ge row.stop hi with hcut | hholds
  · right
    cases after with
    | nil =>
      rw [spanned_nil] at hsum
      omega
    | cons next rest =>
      obtain ⟨hnext, -, -⟩ := follow_cons_iff.mp hafter
      exact ⟨next, by simp, by omega, by omega⟩
  · exact .inl ⟨row, by simp, hstart, hholds⟩

end Follow

end Following

/-! ## Sections -/

section Sections

variable {ctx : Context} {s : Section} {semantic : Semantic}

theorem showBytes_sectionView (hbytes : s.isZeroFill = false)
    (hfits : s.addr.toNat + s.size.toNat < 2 ^ 64) :
    ShowBytes s.addr.toNat (sectionBytes s) (sectionView ctx s semantic).rows := by
  have hle : (sectionBytes s).length ≤ s.size.toNat := List.length_take_le _ _
  simp only [sectionView, sectionContents, hbytes, Bool.false_eq_true, if_false]
  exact showBytes_byteRows ctx _ _ (by omega)

theorem showZeros_sectionView (hzeros : s.isZeroFill = true)
    (hfits : s.addr.toNat + s.size.toNat < 2 ^ 64) :
    ShowZeros s.addr.toNat s.size.toNat zeroRowLimit (sectionView ctx s semantic).rows := by
  simp only [sectionView, sectionContents, hzeros, if_true]
  exact showZeros_zeroRows (.inl (by decide)) hfits

/-- The rows of a section whose bytes are all there, or are zeros, go through all of the section. -/
theorem follow_sectionView (hstored : s.isZeroFill = true ∨ s.size.toNat ≤ s.data.length)
    (hfits : s.addr.toNat + s.size.toNat < 2 ^ 64) :
    Follow s.addr.toNat (sectionView ctx s semantic).rows ∧
      spanned (sectionView ctx s semantic).rows = s.size.toNat := by
  cases hzeros : s.isZeroFill with
  | true =>
    have hshow : ShowZeros _ _ _ (sectionView ctx s semantic).rows :=
      showZeros_sectionView hzeros hfits
    exact ⟨hshow.toFollow, hshow.spanned_eq⟩
  | false =>
    have hshow : ShowBytes _ _ (sectionView ctx s semantic).rows :=
      showBytes_sectionView hzeros hfits
    have hpresent : s.size.toNat ≤ s.data.length := by simpa [hzeros] using hstored
    have hlength : (sectionBytes s).length = s.size.toNat := List.length_take_of_le hpresent
    exact ⟨hshow.toFollow, hshow.spanned_eq.trans hlength⟩

end Sections

end MachInspect.View
