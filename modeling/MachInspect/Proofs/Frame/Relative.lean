-- SUMMARY: Where program-counter-relative pointers of 32-bit images lead.
import MachInspect.Proofs.Frame.Reading

/-!
# Relative pointers in 32-bit images

In an image with pointers of four bytes, a relative pointer stores the distance from its own address
to its target, around the end of the 32-bit address space. It is read as a number of 64 bits, with
zeros or with copies of its sign above, and added to the address in 64 bits. So the low half of the
sum is always the target, and the sum is the target if the distance as it was read is the distance
that was meant: forwards for unsigned words, and up to half of the address space in either direction
for signed ones.
-/
namespace MachInspect.Frame

/-- The encodings of relative pointers that are stored in a word of four bytes, where pointers have
four bytes, and whether the word is signed. -/
def relativeWords : List (UInt8 × Bool) :=
  [(0x10, false), (0x13, false), (0x18, true), (0x1b, true)]

/-- A word can lead from `field` to `target` without going around the end of the address space. -/
def InReach (signed : Bool) (field target : Nat) : Prop :=
  if signed then -2 ^ 31 ≤ (target : Int) - field ∧ (target : Int) - field < 2 ^ 31
  else field ≤ target

instance (signed : Bool) (field target : Nat) : Decidable (InReach signed field target) :=
  inferInstanceAs (Decidable (ite _ _ _))

section

variable {encoding : UInt8} {signed : Bool}

/-- These are words by the low half of the encoding, and relative by the high half. -/
theorem relativeWord_halves (h : (encoding, signed) ∈ relativeWords) :
    (encoding &&& 0x0f, .word 4 signed) ∈ formats 4 ∧ encoding &&& 0xf0 = 0x10 := by
  simp only [relativeWords, List.mem_cons, Prod.mk.injEq, List.not_mem_nil, or_false] at h
  obtain ⟨rfl, rfl⟩ | ⟨rfl, rfl⟩ | ⟨rfl, rfl⟩ | ⟨rfl, rfl⟩ := h <;> decide

/-- The number that a word of four bytes stands for. -/
def wordValue (signed : Bool) (word : BitVec 32) : Int := if signed then word.toInt else word.toNat

theorem toInt_emod (word : BitVec 32) : word.toInt % 2 ^ 32 = word.toNat % 2 ^ 32 := by
  rw [BitVec.toInt_eq_toNat_bmod]
  exact Int.bmod_emod

/-- Both readings of a word are the same number, up to the size of the address space. -/
theorem wordValue_emod (signed : Bool) (word : BitVec 32) :
    wordValue signed word % 2 ^ 32 = word.toNat % 2 ^ 32 := by
  cases signed with
  | false => rfl
  | true => exact toInt_emod word

/-- A word is a number that its format can store. -/
theorem exists_number (signed : Bool) (word : BitVec 32) (order : ByteOrder) :
    ∃ number : (Encoding.Format.word 4 signed).Number,
      number.bytes order = order.encode 4 word.toNat ∧ number.value = wordValue signed word := by
  have hlt : word.toNat < 2 ^ 32 := word.isLt
  cases signed with
  | false => exact ⟨.unsigned word.toNat hlt, rfl, rfl⟩
  | true =>
    have hlower : -2 ^ 31 ≤ word.toInt := word.le_toInt
    have hupper : word.toInt < 2 ^ 31 := word.toInt_lt
    have hmod := toInt_emod word
    have hstored : (word.toInt % 256 ^ 4).toNat = word.toNat := by omega
    refine ⟨.signed word.toInt (by omega) (by omega), ?_, rfl⟩
    rw [Encoding.Format.Number.bytes, hstored]

/-- A relative pointer leads as far as the number in its word says, in 64 bits. -/
theorem read_relativeWord (h : (encoding, signed) ∈ relativeWords) (order : ByteOrder)
    (word : BitVec 32) (before after : Bytes) (field : UInt64) :
    Pointer.read order 4 (before ++ (order.encode 4 word.toNat ++ after)) before.length encoding
        field
      = .ok ⟨UInt64.ofInt (wordValue signed word), 4,
          some (UInt64.ofInt (field.toNat + wordValue signed word))⟩ := by
  obtain ⟨number, hbytes, hvalue⟩ := exists_number signed word order
  obtain ⟨hformat, hrelative⟩ := relativeWord_halves h
  have hdrop : (before ++ (order.encode 4 word.toNat ++ after)).drop before.length =
      number.bytes order ++ after := by
    rw [List.drop_left, hbytes]
  have hread := StoredPointer.read (.inl rfl) (.stored hformat number) (by simp) hdrop field
  rw [hread, StoredPointer.pointer, StoredPointer.raw, StoredPointer.bytes,
    StoredPointer.address?, Encoding.Format.Number.raw, hbytes, hvalue, hrelative,
    ByteOrder.length_encode]
  rfl

/-- A target is in reach exactly if the number in the word leads there in one go. -/
theorem inReach_iff {field target : Nat} {word : BitVec 32} (hfield : field < 2 ^ 32)
    (htarget : target = (field + word.toNat) % 2 ^ 32) :
    InReach signed field target ↔ (field : Int) + wordValue signed word = target := by
  have hlt : word.toNat < 2 ^ 32 := word.isLt
  cases signed with
  | false =>
    simp only [InReach, wordValue, Bool.false_eq_true, if_false]
    omega
  | true =>
    have hlower : -2 ^ 31 ≤ word.toInt := word.le_toInt
    have hupper : word.toInt < 2 ^ 31 := word.toInt_lt
    have hmod := toInt_emod word
    simp only [InReach, wordValue, if_true]
    omega

end

/-- A relative pointer of four bytes in an image with pointers of four bytes is always read, and the
low half of its address is the target, the sum of its own address and its word in the 32-bit address
space. The address is the target exactly if the target is in reach: not before the pointer if its
word is unsigned, and less than half of the address space away if it is signed. -/
theorem relative_address_is_target_iff {encoding : UInt8} {signed : Bool}
    (hencoding : (encoding, signed) ∈ relativeWords) (order : ByteOrder) (word : BitVec 32)
    {field : UInt64} (hfield : field.toNat < 2 ^ 32) (before after : Bytes) :
    ∃ raw address,
      Pointer.read order 4 (before ++ (order.encode 4 word.toNat ++ after)) before.length encoding
          field
        = .ok ⟨raw, 4, some address⟩ ∧
      address.toNat % 2 ^ 32 = (field.toNat + word.toNat) % 2 ^ 32 ∧
      (address.toNat = (field.toNat + word.toNat) % 2 ^ 32 ↔
        InReach signed field.toNat ((field.toNat + word.toNat) % 2 ^ 32)) := by
  have hvalue := wordValue_emod signed word
  have haddress := toNat_ofInt (field.toNat + wordValue signed word)
  have hlt : word.toNat < 2 ^ 32 := word.isLt
  refine ⟨_, _, read_relativeWord hencoding order word before after field, by omega, ?_⟩
  rw [inReach_iff hfield rfl]
  -- The number in a word is too small to go around 64 bits and come back to the target.
  have hbounds : -2 ^ 31 ≤ wordValue signed word ∧ wordValue signed word < 2 ^ 32 := by
    have hlower : -2 ^ 31 ≤ word.toInt := word.le_toInt
    have hupper : word.toInt < 2 ^ 31 := word.toInt_lt
    unfold wordValue
    split <;> omega
  omega

/-- The same word leads back to `0xfe0` if it is signed, and out of the address space if not. -/
theorem backward_relative_address :
    (∃ raw address, Pointer.read .big 4 [0xff, 0xff, 0xff, 0xe0] 0 0x1b 0x1000
        = .ok ⟨raw, 4, some address⟩ ∧ address.toNat % 2 ^ 32 = 0xfe0 ∧
        (address.toNat = 0xfe0 ↔ InReach true 0x1000 0xfe0)) ∧
    InReach true 0x1000 0xfe0 ∧
    (∃ raw address, Pointer.read .big 4 [0xff, 0xff, 0xff, 0xe0] 0 0x10 0x1000
        = .ok ⟨raw, 4, some address⟩ ∧ address.toNat % 2 ^ 32 = 0xfe0 ∧
        (address.toNat = 0xfe0 ↔ InReach false 0x1000 0xfe0)) ∧
    ¬ InReach false 0x1000 0xfe0 :=
  ⟨relative_address_is_target_iff (by decide) .big 0xffffffe0#32 (by decide) [] [], by decide,
    relative_address_is_target_iff (by decide) .big 0xffffffe0#32 (by decide) [] [], by decide⟩

/-- An unsigned word that is meant to lead back leads past the end of the address space. -/
theorem backward_pointer_leaves_address_space :
    Pointer.read .little 4 [0xe0, 0xff, 0xff, 0xff] 0 0x10 0x1000
      = .ok ⟨0xffffffe0, 4, some 0x100000fe0⟩ ∧
    (0x100000fe0 : UInt64).toNat ≠ (0x1000 + 0xffffffe0) % 2 ^ 32 :=
  ⟨rfl, by decide⟩

end MachInspect.Frame
