-- SUMMARY: Where the instructions of code in words of four bytes start.
import MachInspect.Code.Decoder

/-!
# Alignment of disassembled words

The instruction sets with words of four bytes share one decoder: a word that is accepted takes four
bytes, and of anything else some bytes are skipped. Which words are accepted does not matter here,
so it is a parameter. If four bytes are skipped, all instructions stay aligned. If fewer are, the
first word that is not accepted shifts what comes after it, unless the code ends there.
-/
namespace MachInspect.Code

/-! ## Words that are accepted -/

section Words

/-- Decodes words of four bytes, and skips `skip` bytes where `accept` has no text. -/
def wordwise (accept : Bytes → UInt64 → Option String) (skip : Nat) : Decoder := fun code pc =>
  match accept code pc with
  | some text => (text, 4)
  | none => (unknown, skip)

/-- The text of the word at the start of some bytes, if a pattern fits it. -/
def WordSet.accept (set : WordSet) (index : SymbolIndex) : Bytes → UInt64 → Option String :=
  fun code pc => do
    let bytes ← slice? code 0 4
    let word := UInt32.ofNat (set.order.value bytes)
    let p ← set.patterns.find? fun p => p.fits word
    let text := p.text word pc
    return if p.namesAddress then withNames index text else text

theorem WordSet.decode_eq (set : WordSet) (index : SymbolIndex) :
    set.decode index = wordwise (set.accept index) set.skip := by
  funext code pc
  simp only [WordSet.decode, WordSet.accept, wordwise]
  cases slice? code 0 4 with
  | none => rfl
  | some bytes =>
    simp only [Option.bind_eq_bind, Option.bind_some]
    cases set.patterns.find? fun p => p.fits (UInt32.ofNat (set.order.value bytes)) with
    | none => rfl
    | some p => rfl

/-- The instruction set of a CPU with words of four bytes. -/
def wordSet? : Arch → Option WordSet
  | .arm => some arm
  | .arm64 => some arm64
  | .powerPc | .powerPc64 => some powerPc
  | _ => none

/-- The decoder of a file for such a CPU. Unknown words are skipped as a whole on one CPU only. -/
theorem exists_wordSet {index : SymbolIndex}
    (hwords : index.image.arch ∈ [Arch.arm, .arm64, .powerPc, .powerPc64]) :
    ∃ set, wordSet? index.image.arch = some set ∧
      decoder? index = some (wordwise (set.accept index) set.skip) ∧
      set.skip = if index.image.arch = .arm64 then 4 else 1 := by
  simp only [← WordSet.decode_eq, decoder?]
  cases harch : index.image.arch with
  | arm => exact ⟨arm, rfl, rfl, rfl⟩
  | arm64 => exact ⟨arm64, rfl, rfl, rfl⟩
  | powerPc => exact ⟨powerPc, rfl, rfl, rfl⟩
  | powerPc64 => exact ⟨powerPc, rfl, rfl, rfl⟩
  | _ => simp [harch] at hwords

end Words

/-! ## Alignment -/

section Aligned

variable {decode : Decoder} {accept : Bytes → UInt64 → Option String} {code : Bytes}
  {pc : UInt64} {text : String} {length skip : Nat} {instructions : List Instruction}

/-- All instructions start a multiple of four bytes after `pc`. -/
def Aligned (pc : UInt64) (instructions : List Instruction) : Prop :=
  ∀ i ∈ instructions, 4 ∣ (i.address - pc).toNat

theorem aligned_nil : Aligned pc [] := List.forall_mem_nil _

theorem aligned_cons_iff {i : Instruction} :
    Aligned pc (i :: instructions) ↔ 4 ∣ (i.address - pc).toNat ∧ Aligned pc instructions :=
  List.forall_mem_cons

/-- Addresses wrap around at a multiple of four, so one word further is as good a place to count
from. -/
theorem aligned_next_iff : Aligned (pc + 4) instructions ↔ Aligned pc instructions := by
  have hshift (a : UInt64) : 4 ∣ (a - (pc + 4)).toNat ↔ 4 ∣ (a - pc).toNat := by
    have ha := a.toNat_lt
    have hpc := pc.toNat_lt
    simp only [UInt64.toNat_sub, UInt64.toNat_add, UInt64.reduceToNat]
    omega
  exact forall₂_congr fun i _ => hshift i.address

theorem disassemble_nil : disassemble decode [] pc = [] := by simp [disassemble]

/-- One step: a length past the end of the code stands for all that is left. -/
theorem disassemble_step (hcode : code ≠ []) (hdecode : decode code pc = (text, length))
    (hpos : 0 < length) :
    disassemble decode code pc =
      ⟨pc, code.take length, text⟩ ::
        disassemble decode (code.drop length) (pc + UInt64.ofNat length) := by
  obtain ⟨b, rest, rfl⟩ := List.exists_cons_of_ne_nil hcode
  rw [disassemble, hdecode]
  simp only
  rcases Nat.le_total length (rest.length + 1) with hle | hge
  · rw [Nat.min_eq_left hle, Nat.max_eq_right hpos]
    obtain ⟨n, rfl⟩ := Nat.exists_eq_add_one.mpr hpos
    rfl
  · have hall : (b :: rest).length ≤ length := hge
    rw [Nat.min_eq_right hge, Nat.max_eq_right (Nat.le_add_left 1 _), Nat.add_sub_cancel,
      List.drop_length, List.drop_eq_nil_of_le hall, disassemble_nil, disassemble_nil,
      List.take_of_length_le hall]
    simp

theorem aligned_step_iff (hcode : code ≠ []) (hdecode : decode code pc = (text, length))
    (hpos : 0 < length) :
    Aligned pc (disassemble decode code pc) ↔
      Aligned pc (disassemble decode (code.drop length) (pc + UInt64.ofNat length)) := by
  rw [disassemble_step hcode hdecode hpos, aligned_cons_iff]
  simp

/-- A step of a whole word keeps the alignment. -/
theorem aligned_word_iff (hcode : code ≠ []) (hdecode : decode code pc = (text, 4)) :
    Aligned pc (disassemble decode code pc) ↔
      Aligned (pc + 4) (disassemble decode (code.drop 4) (pc + 4)) := by
  rw [aligned_step_iff hcode hdecode (by decide), aligned_next_iff]
  rfl

/-- A step of less than a word loses the alignment, unless it is the last one. -/
theorem aligned_short_iff (hcode : code ≠ []) (hdecode : decode code pc = (text, length))
    (hpos : 0 < length) (hlt : length < 4) :
    Aligned pc (disassemble decode code pc) ↔ code.length ≤ length := by
  rw [aligned_step_iff hcode hdecode hpos]
  constructor
  · intro haligned
    refine Nat.le_of_not_lt fun hmore => ?_
    have hrest : code.drop length ≠ [] := by simpa using hmore
    obtain ⟨b, rest, hrest⟩ := List.exists_cons_of_ne_nil hrest
    rw [hrest, disassemble, aligned_cons_iff] at haligned
    have hoffset : 4 ∣ length := by
      have hdvd := haligned.1
      simp only [UInt64.add_comm pc, UInt64.add_sub_cancel, UInt64.toNat_ofNat'] at hdvd
      omega
    exact absurd (Nat.le_of_dvd hpos hoffset) (by omega)
  · intro hend
    rw [List.drop_eq_nil_of_le hend, disassemble_nil]
    exact aligned_nil

/-- Where whole words are skipped, no instruction is out of place. -/
theorem aligned_of_skip_word (accept : Bytes → UInt64 → Option String) (code : Bytes)
    (pc : UInt64) : Aligned pc (disassemble (wordwise accept 4) code pc) := by
  rcases Decidable.em (code = []) with rfl | hcode
  · rw [disassemble_nil]
    exact aligned_nil
  · obtain ⟨text, hdecode⟩ : ∃ text, wordwise accept 4 code pc = (text, 4) := by
      unfold wordwise
      cases accept code pc with
      | some text => exact ⟨text, rfl⟩
      | none => exact ⟨unknown, rfl⟩
    rw [aligned_word_iff hcode hdecode]
    exact aligned_of_skip_word accept (code.drop 4) (pc + 4)
termination_by code.length
decreasing_by
  have hpos : 0 < code.length := List.length_pos_iff.mpr hcode
  rw [List.length_drop]
  omega

/-- Each word is accepted that has more than `skip` bytes of the code. -/
def WordsAccepted (accept : Bytes → UInt64 → Option String) (skip : Nat) (code : Bytes)
    (pc : UInt64) : Prop :=
  ∀ k, 4 * k + skip < code.length →
    (accept (code.drop (4 * k)) (pc + UInt64.ofNat (4 * k))).isSome

theorem wordsAccepted_nil : WordsAccepted accept skip [] pc := by
  intro k hk
  simp at hk

theorem wordsAccepted_iff :
    WordsAccepted accept skip code pc ↔
      (skip < code.length → (accept code pc).isSome) ∧
        WordsAccepted accept skip (code.drop 4) (pc + 4) := by
  have hnext (k : Nat) : pc + UInt64.ofNat (4 * (k + 1)) = pc + 4 + UInt64.ofNat (4 * k) := by
    rw [Nat.mul_succ, UInt64.ofNat_add, UInt64.add_assoc, UInt64.add_comm (UInt64.ofNat (4 * k))]
    rfl
  unfold WordsAccepted
  rw [← Nat.and_forall_add_one]
  refine and_congr (by simp) (forall_congr' fun k => ?_)
  rw [hnext, List.drop_drop, List.length_drop, Nat.add_comm 4, ← Nat.mul_succ]
  exact imp_congr_left (by omega)

/-- Where less than a word is skipped, all instructions are in place if and only if nothing is
skipped before the end. -/
theorem aligned_iff_wordsAccepted (hpos : 0 < skip) (hlt : skip < 4) (code : Bytes)
    (pc : UInt64) :
    Aligned pc (disassemble (wordwise accept skip) code pc) ↔
      WordsAccepted accept skip code pc := by
  rcases Decidable.em (code = []) with rfl | hcode
  · rw [disassemble_nil]
    exact iff_of_true aligned_nil wordsAccepted_nil
  · rw [wordsAccepted_iff]
    cases haccept : accept code pc with
    | some text =>
      rw [aligned_word_iff hcode (by rw [wordwise, haccept]),
        aligned_iff_wordsAccepted hpos hlt (code.drop 4) (pc + 4)]
      simp
    | none =>
      rw [aligned_short_iff hcode (by rw [wordwise, haccept]) hpos hlt]
      constructor
      · intro hend
        refine ⟨fun hmore => absurd hend (Nat.not_le.mpr hmore), ?_⟩
        rw [List.drop_eq_nil_of_le (by omega)]
        exact wordsAccepted_nil
      · rintro ⟨hfirst, -⟩
        exact Nat.le_of_not_lt fun hmore => by simpa using hfirst hmore
termination_by code.length
decreasing_by
  have hpos : 0 < code.length := List.length_pos_iff.mpr hcode
  rw [List.length_drop]
  omega

end Aligned

/-! ## Files -/

section Files

/-- For the CPUs with words of four bytes, whatever words the decoder accepts: the instructions all
start a multiple of four bytes after the start of the code if and only if the CPU is the one whose
unknown words are skipped as a whole, or no word but a last one of a single byte is unknown. -/
theorem instructions_aligned_iff (index : SymbolIndex)
    (hwords : index.image.arch ∈ [Arch.arm, .arm64, .powerPc, .powerPc64]) :
    ∃ set, wordSet? index.image.arch = some set ∧
      decoder? index = some (wordwise (set.accept index) set.skip) ∧
      ∀ (accept : Bytes → UInt64 → Option String) (code : Bytes) (pc : UInt64),
        Aligned pc (disassemble (wordwise accept set.skip) code pc) ↔
          index.image.arch = .arm64 ∨ WordsAccepted accept 1 code pc := by
  obtain ⟨set, hset, hdecoder, hskip⟩ := exists_wordSet hwords
  refine ⟨set, hset, hdecoder, fun accept code pc => ?_⟩
  by_cases harch : index.image.arch = .arm64
  · rw [hskip, if_pos harch]
    exact iff_of_true (aligned_of_skip_word accept code pc) (.inl harch)
  · rw [hskip, if_neg harch, aligned_iff_wordsAccepted (by decide) (by decide)]
    simp [harch]

/-- A file for a CPU with big-endian words. -/
def bigWords : SymbolIndex := SymbolIndex.build (Image.ofParts 18 0 1 0 .big [] [])

theorem big_words_aligned :
    bigWords.image.arch = .powerPc ∧ ∃ decode, decoder? bigWords = some decode ∧
      Aligned 0x1000 (disassemble decode [0x60, 0, 0, 0, 0x4e, 0x80, 0, 0x20, 0] 0x1000) := by
  obtain ⟨set, hset, hdecoder, haligned⟩ := instructions_aligned_iff bigWords (by decide)
  cases hset
  refine ⟨by decide, _, hdecoder, (haligned _ _ _).mpr (.inr fun k hk => ?_)⟩
  obtain rfl | rfl : k = 0 ∨ k = 1 := by
    simp only [List.length_cons, List.length_nil] at hk
    omega
  · decide
  · decide

/-- Three bytes of a word of zeros are left over for instructions of their own. -/
theorem zero_word_loses_alignment :
    bigWords.image.arch = .powerPc ∧ ∃ decode, decoder? bigWords = some decode ∧
      ¬ Aligned 0x1000 (disassemble decode [0x60, 0, 0, 0, 0, 0, 0, 0] 0x1000) := by
  refine ⟨by decide, powerPc.decode bigWords, rfl, ?_⟩
  rw [WordSet.decode_eq, aligned_iff_wordsAccepted (by decide) (by decide)]
  intro haccepted
  exact absurd (haccepted 1 (by decide)) (by decide)

end Files

end MachInspect.Code
