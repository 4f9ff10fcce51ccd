-- SUMMARY: Flag words are shown without loss: the numbers of their entries make up the word.
import Mathlib.Data.Nat.Bitwise
import MachInspect.Image.Describe
import MachInspect.Proofs.Text.Numerals

/-!
# Flag words in words

A flag word is taken apart bit by bit and field by field. What has been taken off and what is left
always make up the word, whichever bits a step asks for; so the numbers that the entries start with
share no bit and lose none.
-/
namespace MachInspect

open Text

/-! ## Numbers that make up a word -/

section Parts

variable {numbers : List Nat} {word : Nat}

/-- Numbers that share no bit with each other and together are `word`. -/
structure MakeUp (numbers : List Nat) (word : Nat) : Prop where
  disjoint : numbers.Pairwise fun a b => a &&& b = 0
  union : numbers.foldr (· ||| ·) 0 = word

theorem testBit_foldr_or (numbers : List Nat) (i : Nat) :
    (numbers.foldr (· ||| ·) 0).testBit i = decide (0 < numbers.countP (·.testBit i)) := by
  induction numbers with
  | nil => simp
  | cons n rest ih =>
    rw [List.foldr_cons, Nat.testBit_or, ih, List.countP_cons]
    cases n.testBit i with
    | false => simp
    | true => simp

theorem pairwise_disjoint_of_countP_le_one
    (h : ∀ i, numbers.countP (·.testBit i) ≤ 1) : numbers.Pairwise fun a b => a &&& b = 0 := by
  induction numbers with
  | nil => exact .nil
  | cons n rest ih =>
    simp only [List.countP_cons] at h
    refine .cons (fun b hb => ?_) (ih fun i => by have := h i; omega)
    apply Nat.eq_of_testBit_eq
    intro i
    rw [Nat.testBit_and, Nat.zero_testBit]
    cases hn : n.testBit i with
    | false => simp
    | true =>
      have hnone : rest.countP (·.testBit i) = 0 := by
        have := h i
        simp only [hn, if_true] at this
        omega
      simpa using List.countP_eq_zero.1 hnone b hb

/-- It is enough that each bit of the word is in one number, and each other bit in none. -/
theorem makeUp_of_countP (h : ∀ i, numbers.countP (·.testBit i) = (word.testBit i).toNat) :
    MakeUp numbers word where
  disjoint := by
    refine pairwise_disjoint_of_countP_le_one fun i => ?_
    rw [h]
    exact Bool.toNat_le _
  union := by
    apply Nat.eq_of_testBit_eq
    intro i
    rw [testBit_foldr_or, h]
    cases word.testBit i <;> rfl

end Parts

theorem toNat_testBit_mask (a mask : UInt32) (i : Nat) :
    ((a &&& mask).toNat.testBit i).toNat + ((a &&& ~~~mask).toNat.testBit i).toNat =
      (a.toNat.testBit i).toNat := by
  have hlimit (b : UInt32) : b.toNat.testBit i = b.toBitVec.getLsbD i := rfl
  simp only [hlimit, UInt32.toBitVec_and, UInt32.toBitVec_not, BitVec.getLsbD_and,
    BitVec.getLsbD_not]
  rcases Nat.lt_or_ge i 32 with hlt | hge
  · cases a.toBitVec.getLsbD i <;> cases mask.toBitVec.getLsbD i <;> simp [hlt]
  · simp [BitVec.getLsbD_of_ge a.toBitVec i hge]

/-! ## Taking parts off a word -/

namespace Peeling

variable {p : Peeling} {word mask : UInt32}

/-- What has been taken off and what is left make up the word: each of its bits is in one entry or
is left, and is not in two places. -/
def Keeps (word : UInt32) (p : Peeling) : Prop :=
  ∀ i, p.entries.countP (·.bits.testBit i) + (p.rest.toNat.testBit i).toNat =
    (word.toNat.testBit i).toNat

theorem keeps_start (word : UInt32) : (start word).Keeps word := by
  intro i
  simp [start]

theorem Keeps.field (h : p.Keeps word) (mask : UInt32) (label : UInt32 → String) :
    (p.field mask label).Keeps word := by
  intro i
  have hsplit := toNat_testBit_mask p.rest mask i
  simp only [Peeling.field, List.countP_append, List.countP_singleton]
  rw [← h i, ← hsplit]
  cases (p.rest &&& mask).toNat.testBit i with
  | false => simp
  | true => simp [Nat.add_assoc]

/-- A mask of one bit. -/
def IsBit (mask : UInt32) : Prop := ∃ k < 32, mask.toNat = 2 ^ k

instance : DecidablePred IsBit := fun mask =>
  decidable_of_iff ((List.range 32).any (fun k => mask.toNat == 2 ^ k) = true) (by simp [IsBit])

/-- A bit that is met is met as a whole, so what is taken is the mask itself. -/
theorem IsBit.and_eq (hbit : IsBit mask) {a : UInt32} (hmet : a &&& mask ≠ 0) :
    a &&& mask = mask := by
  obtain ⟨k, -, hk⟩ := hbit
  rw [ne_eq, ← UInt32.toNat_inj, UInt32.toNat_and, hk, Nat.and_two_pow] at hmet
  rw [← UInt32.toNat_inj, UInt32.toNat_and, hk, Nat.and_two_pow]
  cases hset : a.toNat.testBit k with
  | false => simp [hset] at hmet
  | true => simp

theorem Keeps.flag (h : p.Keeps word) (hbit : IsBit mask) (label : String) :
    (p.flag mask label).Keeps word := by
  rw [Peeling.flag]
  split
  · rename_i hmet
    have hfield := h.field mask fun _ => label
    rwa [Peeling.field, hbit.and_eq hmet] at hfield
  · exact h

theorem Keeps.when {step : Peeling → Peeling} (h : p.Keeps word) (applies : Bool)
    (hstep : ∀ q : Peeling, q.Keeps word → (step q).Keeps word) :
    (p.when applies step).Keeps word := by
  cases applies with
  | false => exact h
  | true => exact hstep p h

theorem Keeps.makeUp_entries (h : p.Keeps word) (hrest : p.rest = 0) :
    MakeUp (p.entries.map FlagEntry.bits) word.toNat := by
  refine makeUp_of_countP fun i => ?_
  simpa [List.countP_map, Function.comp_def, hrest] using h i

theorem Keeps.makeUp_finish (h : p.Keeps word) :
    MakeUp (p.finish.map FlagEntry.bits) word.toNat := by
  refine makeUp_of_countP fun i => ?_
  rw [← h i, finish, List.countP_map]
  split
  · rw [List.countP_append, List.countP_singleton]
    cases hbit : p.rest.toNat.testBit i <;> simp [Function.comp_def, hbit]
  · rename_i hrest
    rw [not_not.1 hrest]
    simp [Function.comp_def]

/-- Whether a flag is set or not, its bit is not left. -/
theorem rest_flag (p : Peeling) (mask : UInt32) (label : String) :
    (p.flag mask label).rest = p.rest &&& ~~~mask := by
  rw [Peeling.flag]
  split
  · rfl
  · rename_i hunset
    rw [← UInt32.toNat_inj]
    apply Nat.eq_of_testBit_eq
    intro i
    have hsplit := toNat_testBit_mask p.rest mask i
    rw [not_not.1 hunset] at hsplit
    cases hp : p.rest.toNat.testBit i <;>
      cases hq : (p.rest &&& ~~~mask).toNat.testBit i <;> simp_all

theorem Keeps.foldl_flag {table : List (UInt32 × String)} (hbits : ∀ entry ∈ table, IsBit entry.1)
    (h : p.Keeps word) : (table.foldl (fun p (bit, name) => p.flag bit name) p).Keeps word := by
  induction table generalizing p with
  | nil => exact h
  | cons entry table ih =>
    rw [List.forall_mem_cons] at hbits
    exact ih hbits.2 (h.flag hbits.1 entry.2)

end Peeling

/-! ## Flag words -/

namespace FlagEntry

theorem makeUp_perBit (names : List String) (flags : UInt32) :
    MakeUp ((perBit names flags).map bits) flags.toNat := by
  refine makeUp_of_countP fun i => ?_
  have hset : ((List.range 32).filter fun bit => flags.toNat.testBit bit).countP
      (fun bit => (2 ^ bit).testBit i) = (flags.toNat.testBit i).toNat := by
    have hone : (fun bit => (2 ^ bit).testBit i && flags.toNat.testBit bit) =
        fun bit => bit == i && flags.toNat.testBit i := by
      funext bit
      rw [Nat.testBit_two_pow]
      grind
    rw [List.countP_filter, hone]
    cases hbit : flags.toNat.testBit i with
    | false => simp
    | true =>
      have hlt : i < 32 := BitVec.lt_of_getLsbD (x := flags.toBitVec) hbit
      have hcount : (List.range 32).count i = 1 := by
        rw [List.nodup_range.count, if_pos (List.mem_range.2 hlt)]
      simpa [List.count] using hcount
  rw [← hset, perBit]
  split
  · rename_i hnone
    rw [List.isEmpty_iff.1 hnone]
    simp
  · simp [Function.comp_def, named]

theorem makeUp_cpuSubtype (type subtype : UInt32) :
    MakeUp ((cpuSubtype type subtype).map bits) subtype.toNat := by
  refine Peeling.Keeps.makeUp_entries (((Peeling.keeps_start subtype).when _
    fun _ h => h.flag (by decide) _).field _ _) ?_
  exact UInt32.and_zero

theorem makeUp_sectionFlags (flags : UInt32) :
    MakeUp ((sectionFlags flags).map bits) flags.toNat := by
  have htyped := (Peeling.keeps_start flags).field 0xff fun t =>
    (Names.find? Names.sectionTypes t).getD "?"
  exact (htyped.foldl_flag (by decide)).makeUp_finish

/-- Outside debugger entries, the fields of a type byte leave nothing. -/
theorem typeBits_cover {kind : UInt8} (hstab : kind &&& 0xe0 = 0) :
    kind.toUInt32 &&& ~~~0x0e &&& ~~~0x10 &&& ~~~0x01 = 0 := by
  have hall : ∀ n < 256, UInt8.ofNat n &&& 0xe0 = 0 →
      (UInt8.ofNat n).toUInt32 &&& ~~~0x0e &&& ~~~0x10 &&& ~~~0x01 = 0 := by
    decide +kernel
  have hkind := hall kind.toNat kind.toNat_lt
  rw [UInt8.ofNat_toNat] at hkind
  exact hkind hstab

theorem makeUp_symbolType (kind : UInt8) :
    MakeUp ((symbolType kind).map bits) kind.toNat := by
  rw [symbolType]
  split
  · exact ⟨List.pairwise_singleton .., Nat.or_zero _⟩
  · rename_i hstab
    rw [← UInt8.toNat_toUInt32]
    refine Peeling.Keeps.makeUp_entries
      ((((Peeling.keeps_start _).field _ _).flag (by decide) _).flag (by decide) _) ?_
    simp only [Peeling.rest_flag, Peeling.field, Peeling.start]
    exact typeBits_cover (not_not.1 hstab)

end FlagEntry

/-! ## Texts -/

/-- The hexadecimal number that a text starts with. -/
def leadingNumber? (text : String) : Option Nat :=
  match text.toList with
  | '0' :: 'x' :: rest => magnitude? 16 (rest.takeWhile fun c => (digitValue? 16 c).isSome)
  | _ => none

/-- The entries that `text` has on its lines start with numbers that make up `word`. -/
def Lossless (text : String) (entries : List String) (word : Nat) : Prop :=
  text = "\n".intercalate entries ∧
    ∃ numbers, entries.map leadingNumber? = numbers.map some ∧ MakeUp numbers word

/-- Digits are read up to the first character that is none. -/
theorem takeWhile_paddedDigits (width n : Nat) {rest : List Char}
    (hrest : ∀ c ∈ rest.head?, digitValue? 16 c = none) :
    (paddedDigits 16 width n ++ rest).takeWhile (fun c => (digitValue? 16 c).isSome) =
      paddedDigits 16 width n := by
  rw [List.takeWhile_append_of_pos]
  · cases rest with
    | nil => simp
    | cons c rest => simp [hrest c (by simp)]
  · intro c hc
    obtain ⟨d, hd, rfl⟩ := exists_of_mem_paddedDigits (by decide) hc
    simp [digitValue?_digitChar (le_refl 16) hd]

theorem leadingNumber?_text (digits : Nat) (e : FlagEntry) :
    leadingNumber? (e.text digits) = some e.bits := by
  obtain ⟨tail, htext, htail⟩ : ∃ tail : List Char,
      (e.text digits).toList = '0' :: 'x' :: (paddedDigits 16 digits e.bits ++ tail) ∧
        ∀ c ∈ tail.head?, digitValue? 16 c = none := by
    cases hlabel : e.label with
    | none => exact ⟨[], by simp [FlagEntry.text, hlabel, hexWide], by simp⟩
    | some label =>
      refine ⟨' ' :: '(' :: (label.toList ++ [')']), by simp [FlagEntry.text, hlabel, hexWide], ?_⟩
      intro c hc
      obtain rfl : ' ' = c := by simpa using hc
      decide
  have hdigits : paddedDigits 16 digits e.bits ≠ [] := by simp [paddedDigits]
  rw [leadingNumber?, htext]
  simp only [takeWhile_paddedDigits _ _ htail]
  rw [magnitude?, digitsValue?_paddedDigits (by decide) (by decide)]
  exact hdigits

theorem lossless_lines (digits : Nat) {entries : List FlagEntry} {word : Nat}
    (h : MakeUp (entries.map FlagEntry.bits) word) :
    Lossless (FlagEntry.lines digits entries) (entries.map (FlagEntry.text digits)) word := by
  refine ⟨rfl, _, ?_, h⟩
  rw [List.map_map, List.map_map]
  refine List.map_congr_left fun e _ => ?_
  rw [Function.comp_apply, Function.comp_apply, leadingNumber?_text]

theorem Image.makeUp_descEntries (image : Image) (s : Symbol) :
    MakeUp ((image.descEntries s).map FlagEntry.bits) s.desc.toNat := by
  rw [descEntries]
  split
  · exact ⟨List.pairwise_singleton .., Nat.or_zero _⟩
  · extract_lets undefined visible object common reference alignment library entries
    have hkeeps : MakeUp (entries.map FlagEntry.bits) s.desc.toUInt32.toNat :=
      Peeling.Keeps.makeUp_finish <|
        (Peeling.keeps_start s.desc.toUInt32)
          |>.when undefined (fun _ h => h.field _ _)
          |>.flag (by decide) _
          |>.when visible (fun _ h => h.flag (by decide) _)
          |>.when object (fun _ h => h.flag (by decide) _)
          |>.when (object && common) (fun _ h => h.field _ _)
          |>.when (!object) (fun _ h => h.flag (by decide) _)
          |>.when undefined (fun _ h => h.flag (by decide) _)
          |>.when undefined (fun _ h => h.flag (by decide) _)
          |>.when (!undefined && visible) (fun _ h => h.flag (by decide) _)
          |>.when object (fun _ h => h.flag (by decide) _)
          |>.when object (fun _ h => h.flag (by decide) _)
          |>.when (!object && image.isTwoLevel && undefined) (fun _ h => h.field _ _)
    rw [UInt16.toNat_toUInt32] at hkeeps
    split
    · rename_i hempty
      rw [List.isEmpty_iff.1 hempty] at hkeeps
      exact ⟨List.pairwise_singleton .., hkeeps.union⟩
    · exact hkeeps

namespace Describe

/-- Symbol descriptions, section, file and segment flags, CPU subtypes and symbol types are shown by
entries whose numbers share no bit, and together are the word. -/
theorem flag_texts_lossless :
    (∀ (image : Image) (s : Symbol),
      Lossless (image.descText s) ((image.descEntries s).map (FlagEntry.text 4)) s.desc.toNat) ∧
    (∀ flags : UInt32, Lossless (sectionFlags flags)
      ((FlagEntry.sectionFlags flags).map (FlagEntry.text 8)) flags.toNat) ∧
    (∀ flags : UInt32, Lossless (fileFlags flags)
      ((FlagEntry.fileFlags flags).map (FlagEntry.text 8)) flags.toNat) ∧
    (∀ flags : UInt32, Lossless (segmentFlags flags)
      ((FlagEntry.segmentFlags flags).map (FlagEntry.text 8)) flags.toNat) ∧
    (∀ type subtype : UInt32, Lossless (cpuSubtype type subtype)
      ((FlagEntry.cpuSubtype type subtype).map (FlagEntry.text 8)) subtype.toNat) ∧
    (∀ kind : UInt8, Lossless (symbolType kind)
      ((FlagEntry.symbolType kind).map (FlagEntry.text 2)) kind.toNat) :=
  ⟨fun image s => lossless_lines 4 (image.makeUp_descEntries s),
    fun flags => lossless_lines 8 (FlagEntry.makeUp_sectionFlags flags),
    fun flags => lossless_lines 8 (FlagEntry.makeUp_perBit Names.fileFlags flags),
    fun flags => lossless_lines 8 (FlagEntry.makeUp_perBit Names.segmentFlags flags),
    fun type subtype => lossless_lines 8 (FlagEntry.makeUp_cpuSubtype type subtype),
    fun kind => lossless_lines 2 (FlagEntry.makeUp_symbolType kind)⟩

end Describe

end MachInspect
