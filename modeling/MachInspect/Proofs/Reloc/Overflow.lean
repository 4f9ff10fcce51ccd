-- SUMMARY: When the sums on the way to a relocation's target leave the range of 64-bit numbers.
import MachInspect.Proofs.Binary.Numbers
import MachInspect.Reloc.Target

/-!
# Addends out of range

Targets are found with checked sums, which fail if they leave the range of 64-bit numbers. With
`Sums.wrapping` the same rules always give a target. Both agree unless some sum leaves its range
(`Guarded`), and this takes a field of eight bytes.
-/
namespace MachInspect

/-! ## Sums that fail -/

/-- Sums that wrap around. -/
def Sums.wrapping : Sums Id := ⟨fun a b => a + b, fun a b => a - b⟩

/-- The checked result fails if there is an overflow, and is the wrapping one if there is none. -/
structure Guarded {α : Type} (checked : Option α) (wrapping : Id α) (overflow : Prop) : Prop where
  none_of : overflow → checked = none
  some_of : ¬ overflow → checked = some wrapping

section Rules

variable {α β : Type} {checked : Option α} {wrapping : Id α} {overflow overflow' : Prop}

theorem Guarded.congr (h : Guarded checked wrapping overflow) (hiff : overflow' ↔ overflow) :
    Guarded checked wrapping overflow' :=
  ⟨fun ho => h.none_of (hiff.mp ho), fun ho => h.some_of fun ho' => ho (hiff.mpr ho')⟩

theorem guarded_pure (a : α) (h : ¬ overflow) : Guarded (pure a) (pure a) overflow :=
  ⟨fun ho => absurd ho h, fun _ => rfl⟩

theorem guarded_add (a b : Int64) :
    Guarded (Sums.checked.add a b) (Sums.wrapping.add a b) (OutOfRange (a.toInt + b.toInt)) :=
  ⟨fun ho => if_pos ho, fun ho => if_neg ho⟩

theorem guarded_sub (a b : Int64) :
    Guarded (Sums.checked.sub a b) (Sums.wrapping.sub a b) (OutOfRange (a.toInt - b.toInt)) :=
  ⟨fun ho => if_pos ho, fun ho => if_neg ho⟩

/-- What follows is only reached if there has been no overflow. -/
theorem Guarded.bind {f : α → Option β} {g : α → Id β} (h : Guarded checked wrapping overflow)
    (hf : ¬ overflow → Guarded (f wrapping) (g wrapping) overflow') :
    Guarded (checked >>= f) (wrapping >>= g) (overflow ∨ overflow') := by
  by_cases ho : overflow
  · rw [h.none_of ho]
    exact ⟨fun _ => rfl, fun hnone => absurd (.inl ho) hnone⟩
  · rw [h.some_of ho]
    exact (hf ho).congr (or_iff_right ho)

theorem Guarded.map (h : Guarded checked wrapping overflow) (f : α → β) :
    Guarded (checked >>= fun a => pure (f a)) (wrapping >>= fun a => pure (f a)) overflow := by
  refine Guarded.congr (h.bind fun _ => ?_) (or_false overflow).symm.to_iff
  exact guarded_pure (f wrapping) id

/-- Results that do not go through sums agree. -/
theorem guarded_ite {c : Prop} [Decidable c] {x : Option α} {y : Id α} {a : α}
    (h : c → Guarded x y overflow) (hnot : overflow → c) :
    Guarded (if c then x else pure a) (if c then y else pure a) overflow := by
  by_cases hc : c
  · simpa only [if_pos hc] using h hc
  · simpa only [if_neg hc] using guarded_pure a (mt hnot hc)

end Rules

/-! ## The sums of each rule -/

namespace Reloc

variable {r : Reloc} {previous next : Option Reloc} {op : Operand}

/-- A section difference leaves the range: upwards with the value of the pair, or downwards with
its own. -/
def DifferenceOverflows (r : Reloc) (next : Option Reloc) (value : Int64) : Prop :=
  r.scattered = true ∧ ∃ pair, next = some pair ∧ pair.scattered = true ∧ pair.kind = 1 ∧
    (2 ^ 63 ≤ value.toInt + pair.value.toNat ∨
      value.toInt + pair.value.toNat - r.value.toNat < -2 ^ 63)

theorem toInt_word (v : UInt32) : v.toUInt64.toInt64.toInt = v.toNat := by
  have hlt := v.toNat_lt
  change v.toUInt64.toBitVec.toInt = v.toNat
  rw [BitVec.toInt_eq_toNat_bmod, UInt64.toNat_toBitVec, UInt32.toNat_toUInt64]
  exact Int.bmod_eq_of_le (by omega) (by omega)

theorem toInt_add_of_fits {a b : Int64} (h : ¬ OutOfRange (a.toInt + b.toInt)) :
    (a + b).toInt = a.toInt + b.toInt := by
  unfold OutOfRange at h
  rw [Int64.toInt_add]
  exact Int.bmod_eq_of_le (by omega) (by omega)

theorem differenceOverflows_iff (hscattered : r.scattered = true) {pair : Reloc}
    (hpair : pair.scattered = true ∧ pair.kind = 1) (value : Int64) :
    r.DifferenceOverflows (some pair) value ↔
      OutOfRange (value.toInt + pair.value.toUInt64.toInt64.toInt) ∨
        OutOfRange ((value + pair.value.toUInt64.toInt64).toInt
          - r.value.toUInt64.toInt64.toInt) := by
  have hdifference : r.DifferenceOverflows (some pair) value ↔
      2 ^ 63 ≤ value.toInt + pair.value.toNat ∨
        value.toInt + pair.value.toNat - r.value.toNat < -2 ^ 63 := by
    simp [DifferenceOverflows, hscattered, hpair]
  have hlow := value.le_toInt
  have hhigh := value.toInt_lt
  rw [hdifference, toInt_word, toInt_word]
  by_cases hsum : OutOfRange (value.toInt + pair.value.toNat)
  · simp only [hsum, true_or, iff_true]
    unfold OutOfRange at hsum
    omega
  · have hexact : (value + pair.value.toUInt64.toInt64).toInt = value.toInt + pair.value.toNat := by
      rw [toInt_add_of_fits, toInt_word]
      rwa [toInt_word]
    rw [hexact]
    unfold OutOfRange at *
    omega

theorem guarded_sectionDifference (hscattered : r.scattered = true) :
    Guarded (sectionDifference .checked r next op) (sectionDifference .wrapping r next op)
      (r.DifferenceOverflows next op.value) := by
  cases next with
  | none => exact guarded_pure _ fun ⟨_, _, hnext, _⟩ => nomatch hnext
  | some pair =>
    refine guarded_ite (fun hpair => ?_) fun h => ?_
    · refine Guarded.congr ?_ (differenceOverflows_iff hscattered hpair op.value)
      exact (guarded_add _ _).bind fun _ => (guarded_sub _ _).map _
    · obtain ⟨-, _, hnext, hpair, hkind, -⟩ := h
      cases hnext
      exact ⟨hpair, hkind⟩

/-- Kinds of section differences are the only ones with sums. -/
theorem guarded_difference {difference : Prop} (h : difference) (t : RelocTarget) :
    Guarded (if r.scattered = true then sectionDifference .checked r next op else pure t)
      (if r.scattered = true then sectionDifference .wrapping r next op else pure t)
      (difference ∧ r.DifferenceOverflows next op.value) := by
  refine guarded_ite (fun hscattered => ?_) fun ho => ho.2.1
  exact (guarded_sectionDifference hscattered).congr (and_iff_right h)

theorem guarded_targetX86 : Guarded (targetX86 .checked r next op) (targetX86 .wrapping r next op)
    (r.kind.toNat ∈ [2, 4] ∧ r.DifferenceOverflows next op.value) := by
  unfold targetX86
  split
  case h_3 h | h_4 h => exact guarded_difference (by simp [h]) _
  all_goals exact guarded_pure _ fun ho => absurd ho.1 (by grind)

theorem guarded_targetArm (order : ByteOrder) :
    Guarded (targetArm .checked order r next op) (targetArm .wrapping order r next op)
      (r.kind.toNat ∈ [2, 3] ∧ r.DifferenceOverflows next op.value) := by
  unfold targetArm
  split
  case h_3 h | h_4 h => exact guarded_difference (by simp [h]) _
  all_goals exact guarded_pure _ fun ho => absurd ho.1 (by grind)

theorem guarded_targetPowerPc :
    Guarded (targetPowerPc .checked r next op) (targetPowerPc .wrapping r next op)
      (r.kind.toNat ∈ [8, 15] ∧ r.DifferenceOverflows next op.value) := by
  unfold targetPowerPc
  split
  case h_3 h | h_4 h => exact guarded_difference (by simp [h]) _
  all_goals exact guarded_pure _ fun ho => absurd ho.1 (by grind)

theorem guarded_targetX86_64 :
    Guarded (targetX86_64 .checked r op) (targetX86_64 .wrapping r op)
      (r.kind ≠ 5 ∧ (r.external = true ∨ r.pcRelative = true) ∧
        OutOfRange (op.value.toInt + r.trailingImmediate.toInt)) := by
  have hsum := guarded_add op.value r.trailingImmediate
  unfold targetX86_64
  by_cases hkind : r.kind = 5
  · simp only [if_pos hkind]
    exact guarded_pure _ fun h => h.1 hkind
  · simp only [if_neg hkind]
    cases hexternal : r.external with
    | true => exact (hsum.map _).congr (by simp [hkind])
    | false =>
      cases hrelative : r.pcRelative with
      | true => exact (hsum.map _).congr (by simp [hkind])
      | false => exact guarded_pure _ (by simp)

theorem guarded_targetArm64 :
    Guarded (targetArm64 .checked r previous op) (targetArm64 .wrapping r previous op)
      (r.kind = 0 ∧ r.external = true ∧
        OutOfRange (op.value.toInt + (r.suppliedAddend previous).toInt)) := by
  have hkind : r.kind = 0 ↔ r.kind.toNat = 0 := by
    rw [← UInt8.toNat_inj]
    rfl
  rw [hkind]
  unfold targetArm64
  split
  case h_3 h =>
    cases hexternal : r.external with
    | true => exact ((guarded_add _ _).map _).congr (by simp [h])
    | false => exact guarded_pure _ (by simp)
  all_goals exact guarded_pure _ fun ho => absurd ho.1 (by omega)

/-- A sum on the way to the target of an entry leaves the range, where the field that the entry
patches holds `value`. -/
def Overflows (r : Reloc) (arch : Arch) (previous next : Option Reloc) (value : Int64) : Prop :=
  match arch with
  | .x86 => r.kind.toNat ∈ [2, 4] ∧ r.DifferenceOverflows next value
  | .x86_64 =>
    r.kind ≠ 5 ∧ (r.external = true ∨ r.pcRelative = true) ∧
      OutOfRange (value.toInt + r.trailingImmediate.toInt)
  | .arm => r.kind.toNat ∈ [2, 3] ∧ r.DifferenceOverflows next value
  | .arm64 =>
    r.kind = 0 ∧ r.external = true ∧ OutOfRange (value.toInt + (r.suppliedAddend previous).toInt)
  | .powerPc | .powerPc64 => r.kind.toNat ∈ [8, 15] ∧ r.DifferenceOverflows next value
  | .other _ => False

theorem guarded_target (arch : Arch) (order : ByteOrder) (r : Reloc) (previous next : Option Reloc)
    (op : Operand) :
    Guarded (r.target .checked arch order previous next op)
      (r.target .wrapping arch order previous next op)
      (r.Overflows arch previous next op.value) := by
  cases arch with
  | x86 => exact guarded_targetX86
  | x86_64 => exact guarded_targetX86_64
  | arm => exact guarded_targetArm order
  | arm64 => exact guarded_targetArm64
  | powerPc | powerPc64 => exact guarded_targetPowerPc
  | other cpuType => exact guarded_pure _ id

/-- Numbers of at most 32 bits are far from the ends of the range. -/
theorem toInt_signExtend_bounds (v : UInt64) {bits : Nat} (hbits : bits ≤ 32) :
    -2 ^ 31 ≤ (signExtend v bits).toInt ∧ (signExtend v bits).toInt < 2 ^ 31 := by
  have hpow : 2 ^ bits ≤ 2 ^ 32 := Nat.pow_le_pow_right (by decide) hbits
  have hpos : 0 < 2 ^ bits := Nat.two_pow_pos bits
  have hlow : _ ≤ Int.bmod (v.toNat : Int) (2 ^ bits) := Int.le_bmod hpos
  have hhigh : Int.bmod (v.toNat : Int) (2 ^ bits) < _ := Int.bmod_lt hpos
  have hsame : (signExtend v bits).toInt = Int.bmod v.toNat (2 ^ bits) := by
    rw [signExtend, Int64.toInt_ofInt, Int64.size]
    exact Int.bmod_eq_of_le (by omega) (by omega)
  omega

theorem toInt_trailingImmediate (r : Reloc) :
    0 ≤ r.trailingImmediate.toInt ∧ r.trailingImmediate.toInt ≤ 4 := by
  unfold trailingImmediate
  split <;> decide

theorem toInt_suppliedAddend_bounds (r : Reloc) (previous : Option Reloc) :
    -2 ^ 31 ≤ (r.suppliedAddend previous).toInt ∧ (r.suppliedAddend previous).toInt < 2 ^ 31 := by
  unfold suppliedAddend
  split
  · split
    · exact toInt_signExtend_bounds _ (by decide)
    · decide
  · decide

theorem width_le_four_or_eq_eight (r : Reloc) : r.width ≤ 4 ∨ r.width = 8 := by
  have hall : ∀ k < 4, 2 ^ k ≤ 4 ∨ 2 ^ k = 8 := by decide
  exact hall _ (Nat.mod_lt _ (by decide))

theorem not_overflows_of_narrow {arch : Arch} {value : Int64}
    (hvalue : -2 ^ 31 ≤ value.toInt ∧ value.toInt < 2 ^ 31) :
    ¬ r.Overflows arch previous next value := by
  have hdifference : ¬ r.DifferenceOverflows next value := by
    rintro ⟨-, pair, -, -, -, hsum⟩
    have hpair := pair.value.toNat_lt
    have hown := r.value.toNat_lt
    omega
  cases arch with
  | x86_64 =>
    rintro ⟨-, -, hsum⟩
    have himmediate := r.toInt_trailingImmediate
    unfold OutOfRange at hsum
    omega
  | arm64 =>
    rintro ⟨-, -, hsum⟩
    have haddend := r.toInt_suppliedAddend_bounds previous
    unfold OutOfRange at hsum
    omega
  | x86 | arm | powerPc | powerPc64 => exact fun h => hdifference h.2
  | other cpuType => exact id

end Reloc

/-! ## The sums of an entry -/

namespace Section

variable {image : Image} {home : Section} {position : Nat}

/-- A sum on the way to the target of the relocation at `position` leaves the range. -/
def SumOverflows (home : Section) (image : Image) (position : Nat) : Prop :=
  ∃ r bytes, home.relocs[position]? = some r ∧
    home.bytesAt? (home.relocAddress r) r.width = some bytes ∧
    r.Overflows image.arch (home.relocBefore? position) home.relocs[position + 1]?
      (signExtend (image.order.word bytes) (8 * bytes.length))

/-- Where the relocation at `position` of a section points if addends wrap around as well. -/
def wrappedTarget (image : Image) (home : Section) (position : Nat) : RelocTarget :=
  Id.run (home.relocTargetBy .wrapping image position)

/-- A target is missing exactly where some sum overflows; elsewhere it is the wrapped one. -/
theorem guarded_relocTarget (image : Image) (home : Section) (position : Nat) :
    Guarded (home.relocTarget image position) (home.wrappedTarget image position)
      (home.SumOverflows image position) := by
  unfold relocTarget wrappedTarget relocTargetBy SumOverflows
  cases home.relocs[position]? with
  | none => exact guarded_pure _ (by simp)
  | some r =>
    cases hbytes : home.bytesAt? (home.relocAddress r) r.width with
    | none =>
      simp only [hbytes]
      exact guarded_pure _ (by simp [hbytes])
    | some bytes =>
      simp only [hbytes]
      exact (Reloc.guarded_target _ _ r _ _ _).congr (by simp [hbytes, Reloc.Operand.of])

theorem length_of_bytesAt? {address : UInt64} {width : Nat} {bytes : Bytes}
    (h : home.bytesAt? address width = some bytes) : bytes.length = width := by
  unfold bytesAt? at h
  split at h
  · obtain ⟨hle, rfl⟩ := slice?_eq_some h
    rw [List.length_take, List.length_drop]
    omega
  · cases h

/-- Only entries that patch eight bytes have sums that overflow. -/
theorem width_eq_of_sumOverflows {r : Reloc} (hr : home.relocs[position]? = some r)
    (h : home.SumOverflows image position) : r.width = 8 := by
  obtain ⟨r', bytes, hr', hbytes, hoverflows⟩ := h
  obtain rfl := Option.some.inj (hr.symm.trans hr')
  rcases r.width_le_four_or_eq_eight with hle | heq
  · have hnarrow : 8 * bytes.length ≤ 32 := by
      rw [length_of_bytesAt? hbytes]
      omega
    have hvalue := Reloc.toInt_signExtend_bounds (image.order.word bytes) hnarrow
    exact absurd hoverflows (Reloc.not_overflows_of_narrow hvalue)
  · exact heq

theorem relocTarget_eq_none_iff :
    home.relocTarget image position = none ↔ home.SumOverflows image position := by
  have hguarded := guarded_relocTarget image home position
  refine ⟨fun hnone => ?_, hguarded.none_of⟩
  refine Classical.byContradiction fun ho => ?_
  rw [hguarded.some_of ho] at hnone
  cases hnone

/-- A relocation has a target if and only if no sum on the way to it leaves the range of 64-bit
numbers, and then sums that wrap around give the same one. A sum leaves the range exactly in the
entries that `SumOverflows` describes, and all of them patch eight bytes. -/
theorem target_found_iff_no_overflow (image : Image) (home : Section) (position : Nat) :
    (home.relocTarget image position = none ↔ home.SumOverflows image position) ∧
    (home.relocTarget image position = some (home.wrappedTarget image position) ↔
      ¬ home.SumOverflows image position) ∧
    ∀ r, home.relocs[position]? = some r → r.width ≠ 8 → ¬ home.SumOverflows image position := by
  have hguarded := guarded_relocTarget image home position
  refine ⟨relocTarget_eq_none_iff, ⟨fun hsome ho => ?_, hguarded.some_of⟩, ?_⟩
  · rw [hguarded.none_of ho] at hsome
    cases hsome
  · exact fun r hr hwidth ho => hwidth (width_eq_of_sumOverflows hr ho)

/-- The largest field of eight bytes, with relocations that patch it. -/
def largestField (relocs : List Reloc) : Section :=
  ⟨1, "__DATA", "__data", 0x1000, 8, 0, 0, 0, 0, 0,
    [0xff, 0xff, 0xff, 0xff, 0xff, 0xff, 0xff, 0x7f], relocs⟩

/-- A displacement with one byte of immediate behind it. -/
def displacedField : Section := largestField [⟨0, 0, 6, 3, true, true, false⟩]

/-- A pointer with an addend of one from the entry before it. -/
def suppliedField : Section :=
  largestField [⟨0, 1, 10, 3, false, false, false⟩, ⟨0, 0, 0, 3, false, true, false⟩]

/-- A section difference whose pair has the value one. -/
def pairedField : Section :=
  largestField [⟨0, 0, 2, 3, false, false, true⟩, ⟨0, 1, 1, 3, false, false, true⟩]

/-- The only section of an image, with the CPU of the image. -/
def imageOf (cpuType : UInt32) (home : Section) : Image :=
  Image.ofParts cpuType 3 1 0 .little [home] [⟨"_main", 0xf, 1, 0, 0x1000⟩]

/-- Each of the three kinds of sums can leave the range: on x86-64, on ARM64 and on x86. Wrapping
around turns the addend into the least one. -/
theorem largest_field_overflows :
    (displacedField.relocTarget (imageOf 0x1000007 displacedField) 0 = none ∧
      displacedField.wrappedTarget (imageOf 0x1000007 displacedField) 0 =
        .symbol 0 Int64.minValue 8) ∧
    (suppliedField.relocTarget (imageOf 0x100000c suppliedField) 1 = none ∧
      suppliedField.wrappedTarget (imageOf 0x100000c suppliedField) 1 =
        .symbol 0 Int64.minValue 8) ∧
    pairedField.relocTarget (imageOf 7 pairedField) 0 = none ∧
      pairedField.wrappedTarget (imageOf 7 pairedField) 0 = .address 0 Int64.minValue 8 := by
  decide

end Section

end MachInspect
