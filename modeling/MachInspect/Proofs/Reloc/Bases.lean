-- SUMMARY: The address that a relocation leads to does not depend on the base it is written with.
import MachInspect.Anchor
import MachInspect.Proofs.Reloc.Immediates
import MachInspect.Proofs.Reloc.Overflow

/-!
# Bases of relocation targets

A target that is no symbol is an address and an addend. Scattered entries take the address of some
symbol nearby as the base, local ones the address that they lead to. The base cancels out: together,
base and addend are what the field and its neighbour say, and this is the address that is shown and
linked. This holds of sums that wrap around, and so of every target that is found with checked ones.
-/
namespace MachInspect

/-- The address that a target leads to: base and addend together, around the end of the address
space. -/
def RelocTarget.destination? : RelocTarget → Option UInt64
  | .address base addend _ => some (UInt64.ofInt (base.toNat + addend.toInt))
  | .symbol .. | .none | .unresolved _ => Option.none

theorem ofInt_add_toInt (base : UInt64) (addend : Int64) :
    UInt64.ofInt (base.toNat + addend.toInt) = displaced base addend := by
  rw [← displaced_ofInt, ofInt_toNat, Int64.ofInt_toInt]

@[simp] theorem destination?_address (base : UInt64) (addend : Int64) (size : UInt64) :
    (RelocTarget.address base addend size).destination? = some (displaced base addend) :=
  congrArg some (ofInt_add_toInt base addend)

/-- The number in a field, as a signed one of its width. -/
def signedNumber (order : ByteOrder) (bytes : Bytes) : Int :=
  Int.bmod (order.value bytes) (2 ^ (8 * bytes.length))

namespace Reloc

/-- The CPUs that share plain entries and section differences. -/
def genericArchs : List Arch := [.x86, .arm, .powerPc, .powerPc64]

/-- The kinds of section differences, global and local. -/
def IsDifference (kind : UInt8) : Arch → Prop
  | .x86 => kind = 2 ∨ kind = 4
  | .arm => kind = 2 ∨ kind = 3
  | .powerPc | .powerPc64 => kind = 8 ∨ kind = 15
  | .x86_64 | .arm64 | .other _ => False

/-! ## Cancellation -/

section Cancellation

variable {r pair : Reloc} {op : Operand}

/-- Scattered and local entries lead to the same address, which their value has no part in. -/
theorem destination?_plain (h : r.scattered = true ∨ r.external = false) :
    (plain r op).destination? =
      some (if r.pcRelative then displaced op.next op.value else op.raw) := by
  unfold plain
  cases hscattered : r.scattered with
  | true =>
    rw [if_pos rfl, destination?_address, displaced, Int64.toUInt64, UInt64.toInt64]
    rw [UInt64.add_comm, UInt64.sub_add_cancel]
  | false =>
    have hlocal : r.external = false := by simpa [hscattered] using h
    have hzero (a : UInt64) : displaced a 0 = a := UInt64.add_zero a
    simp [hlocal, hzero]

/-- The value of a section difference is added as the base and subtracted in the addend. -/
theorem destination?_sectionDifference (hscattered : pair.scattered = true)
    (hkind : pair.kind = 1) :
    (Id.run (sectionDifference .wrapping r (some pair) op)).destination? =
      some (displaced pair.value.toUInt64 op.value) := by
  have haddend : Id.run (sectionDifference .wrapping r (some pair) op) =
      .address r.value.toUInt64
        (op.value + pair.value.toUInt64.toInt64 - r.value.toUInt64.toInt64) op.width := by
    rw [sectionDifference, if_pos ⟨hscattered, hkind⟩]
    rfl
  have hword (v : UInt32) : v.toUInt64.toInt64.toUInt64 = v.toUInt64 := rfl
  rw [haddend, destination?_address, displaced, displaced, Int64.toUInt64_sub, Int64.toUInt64_add,
    hword, hword, UInt64.add_comm, UInt64.sub_add_cancel, UInt64.add_comm]

end Cancellation

/-! ## The rules of each CPU -/

section Rules

variable {r : Reloc} {arch : Arch} (order : ByteOrder) (previous next : Option Reloc) (op : Operand)

theorem target_plain (harch : arch ∈ genericArchs) (hkind : r.kind = 0) :
    Id.run (r.target .wrapping arch order previous next op) = plain r op := by
  cases arch with
  | x86 => rw [target, targetX86, hkind]; rfl
  | arm => rw [target, targetArm, hkind]; rfl
  | powerPc | powerPc64 => rw [target, targetPowerPc, hkind]; rfl
  | x86_64 | arm64 | other cpuType => simp [genericArchs] at harch

theorem target_difference (hkind : IsDifference r.kind arch) (hscattered : r.scattered = true) :
    r.target .wrapping arch order previous next op = sectionDifference .wrapping r next op := by
  cases arch with
  | x86 => rcases hkind with hkind | hkind <;> rw [target, targetX86, hkind, hscattered] <;> rfl
  | arm => rcases hkind with hkind | hkind <;> rw [target, targetArm, hkind, hscattered] <;> rfl
  | powerPc | powerPc64 =>
    rcases hkind with hkind | hkind <;> rw [target, targetPowerPc, hkind, hscattered] <;> rfl
  | x86_64 | arm64 | other cpuType => cases hkind

/-- Plain entries have no sums that could overflow. -/
theorem not_overflows_plain {previous next : Option Reloc} (harch : arch ∈ genericArchs)
    (hkind : r.kind = 0) (value : Int64) : ¬ r.Overflows arch previous next value := by
  have hzero : r.kind.toNat = 0 := by rw [hkind]; rfl
  cases arch with
  | x86 | arm | powerPc | powerPc64 =>
    rintro ⟨hdifference, -⟩
    rw [hzero] at hdifference
    exact absurd hdifference (by decide)
  | x86_64 | arm64 | other cpuType => simp [genericArchs] at harch

end Rules

/-- Both entries patch the same bytes, and count from the same place. -/
structure SameField (r r' : Reloc) : Prop where
  address_eq : r.address = r'.address
  length_eq : r.length = r'.length
  pcRelative_eq : r.pcRelative = r'.pcRelative

end Reloc

/-! ## Entries of sections -/

namespace Section

/-- The entry at `position` patches these bytes. -/
structure Patches (home : Section) (position : Nat) (r : Reloc) (bytes : Bytes) : Prop where
  entry : home.relocs[position]? = some r
  present : home.bytesAt? (home.relocAddress r) r.width = some bytes

variable {image : Image} {home : Section} {position : Nat} {r : Reloc} {bytes : Bytes}

theorem Patches.wrappedTarget_eq (h : home.Patches position r bytes) :
    home.wrappedTarget image position =
      Id.run (r.target .wrapping image.arch image.order (home.relocBefore? position)
        home.relocs[position + 1]? (.of image.order (home.relocAddress r) bytes)) := by
  rw [wrappedTarget, relocTargetBy, h.entry]
  simp only [h.present]

theorem Patches.length_eq (h : home.Patches position r bytes) : bytes.length = r.width :=
  length_of_bytesAt? h.present

/-- Fields are at most eight bytes wide, so that a word holds their number. -/
theorem Patches.toNat_word (h : home.Patches position r bytes) (order : ByteOrder) :
    (order.word bytes).toNat = order.value bytes := by
  have hwidth : r.width ≤ 8 := by
    have hcases := r.width_le_four_or_eq_eight
    omega
  have hpow : 256 ^ bytes.length ≤ 256 ^ 8 :=
    Nat.pow_le_pow_right (by decide) (h.length_eq ▸ hwidth)
  exact UInt64.toNat_ofNat_of_lt' (Nat.lt_of_lt_of_le (order.value_lt bytes) hpow)

theorem Patches.value_eq (h : home.Patches position r bytes) (order : ByteOrder)
    (address : UInt64) :
    (Reloc.Operand.of order address bytes).value = Int64.ofInt (signedNumber order bytes) := by
  rw [Reloc.Operand.of, signExtend, h.toNat_word, signedNumber]

/-- The address after the field. -/
theorem Patches.next_eq (h : home.Patches position r bytes) (order : ByteOrder) :
    (Reloc.Operand.of order (home.relocAddress r) bytes).next =
      UInt64.ofInt (home.addr.toNat + r.address.toNat + r.width) := by
  rw [Reloc.Operand.next, UInt64.ofInt_add, ← relocAddress_eq, ofInt_natCast, ← h.length_eq]
  rfl

/-- What a plain entry leads to: the number in its field, counted from the end of the field if it is
relative. -/
def plainAddress (home : Section) (order : ByteOrder) (r : Reloc) (bytes : Bytes) : Int :=
  if r.pcRelative then
    home.addr.toNat + r.address.toNat + r.width + signedNumber order bytes
  else order.value bytes

theorem Patches.destination?_plain (h : home.Patches position r bytes)
    (harch : image.arch ∈ Reloc.genericArchs) (hkind : r.kind = 0)
    (hform : r.scattered = true ∨ r.external = false) :
    (home.wrappedTarget image position).destination? =
      some (UInt64.ofInt (home.plainAddress image.order r bytes)) := by
  rw [h.wrappedTarget_eq, Reloc.target_plain _ _ _ _ harch hkind, Reloc.destination?_plain hform,
    h.next_eq, h.value_eq, displaced_ofInt, plainAddress]
  cases r.pcRelative with
  | true => rfl
  | false =>
    have hraw : image.order.word bytes = UInt64.ofInt (image.order.value bytes) := by
      rw [← ofInt_toNat (image.order.word bytes), h.toNat_word]
    exact congrArg some hraw

theorem Patches.destination?_difference (h : home.Patches position r bytes)
    (hkind : Reloc.IsDifference r.kind image.arch) (hscattered : r.scattered = true) {pair : Reloc}
    (hnext : home.relocs[position + 1]? = some pair) (hpair : pair.scattered = true)
    (hpairKind : pair.kind = 1) :
    (home.wrappedTarget image position).destination? =
      some (UInt64.ofInt (signedNumber image.order bytes + pair.value.toNat)) := by
  have hword : pair.value.toUInt64 = UInt64.ofInt (pair.value.toNat : Int) := by
    rw [← ofInt_toNat pair.value.toUInt64, UInt32.toNat_toUInt64]
  rw [h.wrappedTarget_eq, Reloc.target_difference _ _ _ _ hkind hscattered, hnext,
    Reloc.destination?_sectionDifference hpair hpairKind, h.value_eq, hword, displaced_ofInt,
    Int.add_comm]

theorem Patches.not_sumOverflows_plain (h : home.Patches position r bytes)
    (harch : image.arch ∈ Reloc.genericArchs) (hkind : r.kind = 0) :
    ¬ home.SumOverflows image position := by
  rintro ⟨r', bytes', hr', -, hoverflows⟩
  obtain rfl := Option.some.inj (h.entry.symm.trans hr')
  exact Reloc.not_overflows_plain harch hkind _ hoverflows

theorem Patches.bytes_eq {position' : Nat} {r' : Reloc} {bytes' : Bytes}
    (h : home.Patches position r bytes) (h' : home.Patches position' r' bytes')
    (hsame : r.SameField r') : bytes = bytes' := by
  have hplace := h.present
  rw [relocAddress, hsame.address_eq, Reloc.width, hsame.length_eq] at hplace
  exact Option.some.inj (hplace.symm.trans h'.present)

/-- The entry at `position` leads to the address `a`. -/
structure LeadsTo (home : Section) (image : Image) (position : Nat) (a : UInt64) : Prop where
  /-- With sums that wrap around it always has a target there. -/
  wrapped : (home.wrappedTarget image position).destination? = some a
  /-- The target that is found is there; there is none exactly if a sum overflows. -/
  outcome : (home.SumOverflows image position ∧ home.relocTarget image position = none) ∨
    ∃ t, home.relocTarget image position = some t ∧ t.destination? = some a

/-- Checked sums find the target that sums which wrap around give, or none. -/
theorem leadsTo_of_wrapped {a : UInt64}
    (h : (home.wrappedTarget image position).destination? = some a) :
    home.LeadsTo image position a := by
  have hguarded := guarded_relocTarget image home position
  refine ⟨h, ?_⟩
  by_cases ho : home.SumOverflows image position
  · exact .inl ⟨ho, hguarded.none_of ho⟩
  · exact .inr ⟨_, hguarded.some_of ho, h⟩

/-- The address that an entry leads to does not depend on the base that it is written with. A plain
entry has a target, at the number in its field, counted from the end of the field if it is relative,
both as a scattered entry with whatever value and as a local one. A section difference with its pair
leads to the number in its field and the value of the pair, whatever its own value is; only its sums
can overflow. The address that a target leads to is also the one that is shown for it, and the one
that its link opens. -/
theorem destination_independent_of_base {image : Image} (harch : image.arch ∈ Reloc.genericArchs)
    (home : Section) :
    (∀ position r bytes, home.Patches position r bytes → r.kind = 0 →
      r.scattered = true ∨ r.external = false →
        ¬ home.SumOverflows image position ∧
          home.LeadsTo image position (UInt64.ofInt (home.plainAddress image.order r bytes))) ∧
    (∀ position r bytes position' r' bytes', home.Patches position r bytes →
      home.Patches position' r' bytes' → r.SameField r' → r.kind = 0 → r'.kind = 0 →
      r.scattered = true → r'.scattered = false → r'.external = false →
        ∃ a, home.LeadsTo image position a ∧ home.LeadsTo image position' a) ∧
    (∀ position r bytes pair, home.Patches position r bytes →
      Reloc.IsDifference r.kind image.arch → r.scattered = true →
      home.relocs[position + 1]? = some pair → pair.scattered = true → pair.kind = 1 →
        home.LeadsTo image position
          (UInt64.ofInt (signedNumber image.order bytes + pair.value.toNat))) ∧
    ∀ (index : SymbolIndex) (base : UInt64) (addend : Int64) (size : UInt64),
      ∃ a, (RelocTarget.address base addend size).destination? = some a ∧
        (RelocTarget.address base addend size).describe index = index.addressName a true ∧
        Anchor.ofTarget? (.address base addend size) = some (.address a size) := by
  refine ⟨?_, ?_, ?_, ?_⟩
  · intro position r bytes h hkind hform
    exact ⟨h.not_sumOverflows_plain harch hkind,
      leadsTo_of_wrapped (h.destination?_plain harch hkind hform)⟩
  · intro position r bytes position' r' bytes' h h' hsame hkind hkind' hscattered _ hlocal
    have hbytes : bytes = bytes' := h.bytes_eq h' hsame
    have haddress : home.plainAddress image.order r bytes =
        home.plainAddress image.order r' bytes' := by
      rw [plainAddress, plainAddress, hsame.address_eq, hsame.pcRelative_eq, Reloc.width,
        Reloc.width, hsame.length_eq, hbytes]
    refine ⟨_, leadsTo_of_wrapped (h.destination?_plain harch hkind (.inl hscattered)), ?_⟩
    rw [haddress]
    exact leadsTo_of_wrapped (h'.destination?_plain harch hkind' (.inr hlocal))
  · intro position r bytes pair h hkind hscattered hnext hpair hpairKind
    exact leadsTo_of_wrapped (h.destination?_difference hkind hscattered hnext hpair hpairKind)
  · intro index base addend size
    exact ⟨displaced base addend, destination?_address base addend size, rfl, rfl⟩

/-- A displacement back to the start of the section, with a scattered and with a local entry, and a
section difference whose base is far from where it leads. -/
def basedSection : Section :=
  ⟨1, "__TEXT", "__text", 0x1000, 8, 0, 0, 0, 0, 0, [0xfc, 0xff, 0xff, 0xff, 0xf0, 0xff, 0xff, 0xff],
    [⟨0, 0xdeadbeef, 0, 2, true, true, true⟩, ⟨0, 1, 0, 2, true, false, false⟩,
     ⟨4, 0xffffffff, 4, 2, false, false, true⟩, ⟨0, 0x2000, 1, 2, false, false, true⟩]⟩

theorem based_destination_independent_of_base :
    (basedSection.LeadsTo (imageOf 7 basedSection) 0 0x1000 ∧
      basedSection.relocTarget (imageOf 7 basedSection) 0 ≠ none) ∧
    (∃ a, basedSection.LeadsTo (imageOf 7 basedSection) 0 a ∧
      basedSection.LeadsTo (imageOf 7 basedSection) 1 a) ∧
    basedSection.LeadsTo (imageOf 7 basedSection) 2 0x1ff0 := by
  have hscattered : basedSection.Patches 0 ⟨0, 0xdeadbeef, 0, 2, true, true, true⟩
      [0xfc, 0xff, 0xff, 0xff] := ⟨rfl, rfl⟩
  have hlocal : basedSection.Patches 1 ⟨0, 1, 0, 2, true, false, false⟩
      [0xfc, 0xff, 0xff, 0xff] := ⟨rfl, rfl⟩
  have hdifference : basedSection.Patches 2 ⟨4, 0xffffffff, 4, 2, false, false, true⟩
      [0xf0, 0xff, 0xff, 0xff] := ⟨rfl, rfl⟩
  have harch : (imageOf 7 basedSection).arch ∈ Reloc.genericArchs := by decide
  obtain ⟨hplain, hsame, hpair, -⟩ := destination_independent_of_base harch basedSection
  obtain ⟨hfound, hleads⟩ := hplain 0 _ _ hscattered rfl (.inl rfl)
  have hleads' := hpair 2 _ _ _ hdifference (.inr rfl) rfl rfl rfl rfl
  refine ⟨⟨?_, mt relocTarget_eq_none_iff.mp hfound⟩, ?_, ?_⟩
  · have haddress : UInt64.ofInt (basedSection.plainAddress (imageOf 7 basedSection).order
        ⟨0, 0xdeadbeef, 0, 2, true, true, true⟩ [0xfc, 0xff, 0xff, 0xff]) = 0x1000 := by decide
    rwa [haddress] at hleads
  · exact hsame 0 _ _ 1 _ _ hscattered hlocal ⟨rfl, rfl, rfl⟩ rfl rfl rfl rfl rfl
  · have haddress : UInt64.ofInt (signedNumber (imageOf 7 basedSection).order
        [0xf0, 0xff, 0xff, 0xff] + ((0x2000 : UInt32).toNat : Int)) = 0x1ff0 := by decide
    exact haddress ▸ hleads'

end Section

end MachInspect
