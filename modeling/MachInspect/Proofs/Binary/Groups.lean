-- SUMMARY: The numbers that groups of bytes stand for, and that reading gives them.
import MachInspect.Binary.Leb128

/-!
# Groups of bytes

A variable-length number takes a group of bytes: all up to the first one without its top bit. The
readers build a word from the group bit by bit. Here the group and its number are defined apart from
words, and the readers are shown to give that number: the bits that a byte adds lie above those that
are there, so that putting them in is an addition.
-/
namespace MachInspect.Leb128

/-- The bytes of the number at the start of `data`: up to the first byte without its top bit. At
most `limit` bytes are looked at; `none` if none of them ends the number. -/
def group? : Nat → Bytes → Option Bytes
  | 0, _ => none
  | _, [] => none
  | limit + 1, b :: rest =>
    if b < 0x80 then some [b] else (group? limit rest).map (b :: ·)

/-- The unsigned number that a group stands for. -/
def value : Bytes → Nat
  | [] => 0
  | b :: rest => b.toNat % 128 + 128 * value rest

/-- Whether the sign bit of the last byte is set. -/
def isNegative (group : Bytes) : Bool :=
  match group.getLast? with
  | some b => b &&& 0x40 ≠ 0
  | none => false

/-- The signed number that a group stands for. -/
def signedValue (group : Bytes) : Int :=
  if isNegative group then (value group : Int) - 128 ^ group.length else value group

/-- The group at `offset`, or why there is none: the data ends first, or the number is too long. -/
def groupAt (item : Item) (data : Bytes) (offset : Nat) : Except Error Bytes :=
  match group? maxLength (data.drop offset) with
  | some group => .ok group
  | none =>
    let available := data.length - offset
    if available < maxLength then .error (.truncated item offset (available + 1) available)
    else .error (.overflow item offset)

@[simp] theorem group?_nil (limit : Nat) : group? limit [] = none := by
  cases limit <;> rfl

/-- A group goes on up to its first byte without the top bit. -/
theorem exists_of_group? {limit : Nat} {data group : Bytes} (h : group? limit data = some group) :
    ∃ high last rest, group = high ++ [last] ∧ data = high ++ last :: rest ∧
      (∀ b ∈ high, ¬ b < 0x80) ∧ last < 0x80 ∧ high.length < limit := by
  fun_induction group? limit data generalizing group with
  | case1 => cases h
  | case2 => cases h
  | case3 limit b rest hlast =>
    obtain rfl : [b] = group := Option.some.inj h
    exact ⟨[], b, rest, rfl, rfl, nofun, hlast, Nat.succ_pos limit⟩
  | case4 limit b rest hmore ih =>
    obtain ⟨tail, htail, rfl⟩ := Option.map_eq_some_iff.mp h
    obtain ⟨high, last, rest', rfl, rfl, hhigh, hlast, hlength⟩ := ih htail
    refine ⟨b :: high, last, rest', rfl, rfl, ?_, hlast, Nat.succ_lt_succ hlength⟩
    exact List.forall_mem_cons.mpr ⟨hmore, hhigh⟩

theorem group?_of_groupAt {item : Item} {data group : Bytes} {offset : Nat}
    (h : groupAt item data offset = .ok group) :
    group? maxLength (data.drop offset) = some group := by
  unfold groupAt at h
  split at h
  · rwa [← Except.ok.inj h]
  · dsimp only at h
    split at h <;> cases h

theorem length_of_groupAt {item : Item} {data group : Bytes} {offset : Nat}
    (h : groupAt item data offset = .ok group) : group.length ≤ maxLength := by
  obtain ⟨high, last, rest, rfl, -, -, -, hlength⟩ := exists_of_group? (group?_of_groupAt h)
  rwa [List.length_append, List.length_singleton]

theorem value_lt (group : Bytes) : value group < 128 ^ group.length := by
  induction group with
  | nil => decide
  | cons b rest ih =>
    rw [value, List.length_cons, Nat.pow_succ]
    omega

/-! ## Bits of a byte -/

theorem toNat_low_bits (b : UInt8) : (b &&& 0x7f).toNat = b.toNat % 128 :=
  Nat.and_two_pow_sub_one_eq_mod b.toNat 7

theorem and_bit_eq_zero_iff (b : UInt8) {i : Nat} (hi : i < 8) :
    b &&& UInt8.ofNat (2 ^ i) = 0 ↔ b.toNat.testBit i = false := by
  have hpow : 2 ^ i < 2 ^ 8 := Nat.pow_lt_pow_right (by decide) hi
  have hmask : (b &&& UInt8.ofNat (2 ^ i)).toNat = b.toNat &&& 2 ^ i := by
    rw [UInt8.toNat_and, UInt8.toNat_ofNat', Nat.mod_eq_of_lt hpow]
  rw [← UInt8.toNat_inj, hmask]
  change b.toNat &&& 2 ^ i = 0 ↔ _
  constructor
  · intro hzero
    have hbit := Nat.testBit_and b.toNat (2 ^ i) i
    rwa [hzero, Nat.zero_testBit, Nat.testBit_two_pow_self, Bool.and_true, eq_comm] at hbit
  · intro hbit
    apply Nat.eq_of_testBit_eq
    intro j
    rw [Nat.testBit_and, Nat.testBit_two_pow, Nat.zero_testBit]
    by_cases hij : i = j
    · rw [← hij, hbit, Bool.false_and]
    · rw [decide_eq_false hij, Bool.and_false]

/-- The top bit is what is left of a byte without the seven bits below it. -/
theorem top_bit_eq_zero_iff (b : UInt8) : b &&& 0x80 = 0 ↔ b < 0x80 := by
  have hlt := b.toNat_lt
  rw [show (0x80 : UInt8) = UInt8.ofNat (2 ^ 7) from rfl, and_bit_eq_zero_iff b (by decide),
    Nat.testBit_eq_decide_div_mod_eq, decide_eq_false_iff_not, UInt8.lt_iff_toNat_lt]
  change _ ↔ b.toNat < 128
  omega

/-! ## Words -/

theorem pow_128 (n : Nat) : 128 ^ n = 2 ^ (7 * n) := (Nat.pow_mul 2 7 n).symm

theorem pow_128_le {length : Nat} (h : length ≤ maxLength) : 128 ^ length ≤ 2 ^ 56 :=
  Nat.pow_le_pow_right (by decide : 0 < 128) h

/-- Bits that lie above all bits of a number are added to it. -/
theorem toNat_or_above {low high : UInt64} {length above : Nat} (hlow : low.toNat < 128 ^ length)
    (hhigh : high.toNat = 128 ^ length * above) :
    (low ||| high).toNat = low.toNat + 128 ^ length * above := by
  rw [pow_128] at hlow hhigh ⊢
  rw [UInt64.toNat_or, hhigh, Nat.or_comm, ← Nat.two_pow_add_eq_or_of_lt hlow, Nat.add_comm]

theorem toNat_shifted {taken : Nat} (htaken : taken < maxLength) (b : UInt8) :
    ((b &&& 0x7f).toUInt64 <<< UInt64.ofNat (7 * taken)).toNat
      = 128 ^ taken * (b.toNat % 128) := by
  have hpow := pow_128_le (Nat.le_of_lt htaken)
  have hshift : (UInt64.ofNat (7 * taken)).toNat % 64 = 7 * taken := by
    have hlt : taken < 8 := htaken
    rw [UInt64.toNat_ofNat']
    omega
  have hbits : b.toNat % 128 * 128 ^ taken < 2 ^ 64 := by
    have hle : b.toNat % 128 * 128 ^ taken ≤ 127 * 128 ^ taken :=
      Nat.mul_le_mul_right _ (by omega)
    omega
  rw [UInt64.toNat_shiftLeft, hshift, UInt8.toNat_toUInt64, toNat_low_bits, Nat.shiftLeft_eq,
    ← pow_128, Nat.mod_eq_of_lt hbits, Nat.mul_comm]

/-- The bits of a sign lie above those of the number, and take `128 ^ length` away from it. -/
theorem toInt64_fill {word : UInt64} {length : Nat} (hlength : length ≤ maxLength)
    (hword : word.toNat < 128 ^ length) :
    (word ||| 0xffffffffffffffff <<< UInt64.ofNat (7 * length)).toInt64
      = Int64.ofInt (word.toNat - 128 ^ length) := by
  have hsign : ∀ n ≤ 8, ((0xffffffffffffffff : UInt64) <<< UInt64.ofNat (7 * n)).toNat
      = 128 ^ n * (2 ^ (64 - 7 * n) - 1) ∧ 128 ^ n * (2 ^ (64 - 7 * n) - 1) + 128 ^ n = 2 ^ 64 := by
    decide
  obtain ⟨hbits, htotal⟩ := hsign length hlength
  have hfilled := toNat_or_above hword hbits
  have hcast : ((128 ^ length : Nat) : Int) = 128 ^ length := Int.natCast_pow 128 length
  have hint : ((word.toNat + 128 ^ length * (2 ^ (64 - 7 * length) - 1) : Nat) : Int)
      = word.toNat - 128 ^ length + Int64.size := by
    rw [← hcast, Int64.size]
    omega
  rw [← UInt64.ofNat_toNat (x := word ||| _), hfilled, UInt64.toInt64_ofNat',
    ← Int64.ofInt_eq_ofNat, ← Int64.toInt_inj, Int64.toInt_ofInt, Int64.toInt_ofInt, hint,
    Int.add_bmod_right]

/-! ## Reading a group -/

section

variable (item : Item) {data : Bytes} {offset taken : Nat} {word : UInt64}

/-- One byte is put above the bits in `word`, and ends the number if its top bit is clear. -/
theorem gather_step (limit : Nat) {b : UInt8} (htaken : taken < maxLength)
    (hword : word.toNat < 128 ^ taken) (hb : data[offset + taken]? = some b) :
    ∃ word' : UInt64, word'.toNat = word.toNat + 128 ^ taken * (b.toNat % 128) ∧
      word'.toNat < 128 ^ (taken + 1) ∧
      gather item data offset (limit + 1) taken word =
        if b < 0x80 then .ok ⟨word', taken + 1, b⟩
        else gather item data offset limit (taken + 1) word' := by
  have hput := toNat_or_above hword (toNat_shifted htaken b)
  have hlt : word.toNat + 128 ^ taken * (b.toNat % 128) < 128 ^ (taken + 1) := by
    have hle : 128 ^ taken * (b.toNat % 128) ≤ 128 ^ taken * 127 :=
      Nat.mul_le_mul_left _ (by omega)
    rw [Nat.pow_succ]
    omega
  refine ⟨_, hput, hput ▸ hlt, ?_⟩
  rw [gather, hb]
  simp only [top_bit_eq_zero_iff]

/-- The bytes of a group are put above the bits in `word`. -/
theorem gather_of_group? {limit : Nat} {group : Bytes} (hlimit : taken + limit ≤ maxLength)
    (hword : word.toNat < 128 ^ taken)
    (h : group? limit (data.drop (offset + taken)) = some group) :
    ∃ word' last, group.getLast? = some last ∧
      word'.toNat = word.toNat + 128 ^ taken * value group ∧
      gather item data offset limit taken word = .ok ⟨word', taken + group.length, last⟩ := by
  -- Each byte leaves a word below the bits of the next one, which is what the step asks for.
  induction limit generalizing taken word group with
  | zero => cases h
  | succ limit ih =>
    cases hbyte : data[offset + taken]? with
    | none =>
      rw [List.drop_eq_nil_of_le (List.getElem?_eq_none_iff.mp hbyte), group?_nil] at h
      cases h
    | some b =>
      obtain ⟨hinside, hb⟩ := List.getElem?_eq_some_iff.mp hbyte
      obtain ⟨word', hput, hlt, hstep⟩ := gather_step item limit (by omega) hword hbyte
      rw [List.drop_eq_getElem_cons hinside, hb, group?] at h
      by_cases hlast : b < 0x80
      · rw [if_pos hlast] at h hstep
        cases h
        exact ⟨word', b, rfl, by simpa [value] using hput, hstep⟩
      · rw [if_neg hlast] at h hstep
        obtain ⟨rest, hrest, rfl⟩ := Option.map_eq_some_iff.mp h
        obtain ⟨whole, last, hrestLast, hrestWord, hgather⟩ := ih (by omega) hlt hrest
        refine ⟨whole, last, ?_, ?_, ?_⟩
        · rw [List.getLast?_cons, hrestLast, Option.getD_some]
        · rw [hrestWord, hput, value, Nat.pow_succ, Nat.mul_add, Nat.mul_assoc, Nat.add_assoc]
        · rw [hstep, hgather, List.length_cons, Nat.add_right_comm, Nat.add_assoc taken]

/-- Without a group the data end, or there are too many bytes. -/
theorem gather_of_no_group {limit : Nat} (hlimit : taken + limit ≤ maxLength)
    (htaken : taken ≤ data.length - offset) (hword : word.toNat < 128 ^ taken)
    (h : group? limit (data.drop (offset + taken)) = none) :
    gather item data offset limit taken word =
      if data.length - offset < taken + limit then
        .error (.truncated item offset (data.length - offset + 1) (data.length - offset))
      else .error (.overflow item offset) := by
  induction limit generalizing taken word with
  | zero =>
    rw [gather]
    exact (if_neg (by omega)).symm
  | succ limit ih =>
    cases hbyte : data[offset + taken]? with
    | none =>
      have hend : data.length ≤ offset + taken := List.getElem?_eq_none_iff.mp hbyte
      have hlength : data.length - offset = taken := by omega
      rw [gather, hbyte, hlength]
      exact (if_pos (by omega)).symm
    | some b =>
      obtain ⟨hinside, hb⟩ := List.getElem?_eq_some_iff.mp hbyte
      obtain ⟨word', -, hlt, hstep⟩ := gather_step item limit (by omega) hword hbyte
      rw [List.drop_eq_getElem_cons hinside, hb, group?] at h
      by_cases hlast : b < 0x80
      · rw [if_pos hlast] at h
        cases h
      · rw [if_neg hlast] at h hstep
        rw [hstep, ih (by omega) (by omega) hlt (Option.map_eq_none_iff.mp h), Nat.add_right_comm,
          Nat.add_assoc taken]

end

/-- What a group holds. -/
def Gathered.ofGroup (group : Bytes) : Gathered :=
  ⟨UInt64.ofNat (value group), group.length, group.getLastD 0⟩

theorem gather_eq (item : Item) (data : Bytes) (offset : Nat) :
    gather item data offset maxLength 0 0 = (groupAt item data offset).map Gathered.ofGroup := by
  have hlimit : 0 + maxLength ≤ maxLength := Nat.le_of_eq (Nat.zero_add _)
  have hempty : (0 : UInt64).toNat < 128 ^ 0 := Nat.zero_lt_one
  rw [groupAt]
  cases hgroup : group? maxLength (data.drop offset) with
  | none =>
    rw [gather_of_no_group item hlimit (Nat.zero_le _) hempty hgroup, Nat.zero_add]
    dsimp only
    split <;> rfl
  | some group =>
    obtain ⟨word, last, hlast, hword, hgather⟩ := gather_of_group? item hlimit hempty hgroup
    have hvalue : word = UInt64.ofNat (value group) := by
      rw [← UInt64.ofNat_toNat (x := word), hword]
      simp
    rw [hgather, hvalue]
    simp [Except.map, Gathered.ofGroup, hlast]

theorem toNat_word_ofGroup {group : Bytes} (h : group.length ≤ maxLength) :
    (Gathered.ofGroup group).word.toNat = value group := by
  have hlt : value group < 2 ^ 56 := Nat.lt_of_lt_of_le (value_lt group) (pow_128_le h)
  exact UInt64.toNat_ofNat_of_lt' (Nat.lt_trans hlt (by decide))

theorem isNegative_eq (group : Bytes) :
    isNegative group = decide ((Gathered.ofGroup group).last &&& 0x40 ≠ 0) := by
  rw [isNegative, Gathered.ofGroup, List.getLastD_eq_getLast?]
  cases group.getLast? <;> simp

theorem signedWord_ofGroup {group : Bytes} (h : group.length ≤ maxLength) :
    (Gathered.ofGroup group).signedWord.toInt64 = Int64.ofInt (signedValue group) := by
  have hword := toNat_word_ofGroup h
  have hlt : (Gathered.ofGroup group).word.toNat < 128 ^ group.length := hword ▸ value_lt group
  rw [signedValue, isNegative_eq, Gathered.signedWord]
  by_cases hsign : (Gathered.ofGroup group).last &&& 0x40 = 0
  · rw [if_pos hsign, if_neg (by simpa using hsign)]
    rfl
  · rw [if_neg hsign, if_pos (by simpa using hsign), ← hword]
    exact toInt64_fill h hlt

/-- The unsigned number at an offset is the number of its group. -/
theorem unsigned_eq (data : Bytes) (offset : Nat) :
    unsigned data offset = (do
      let group ← groupAt .uleb128 data offset
      return (UInt64.ofNat (value group), group.length)) := by
  rw [unsigned, gather_eq]
  cases groupAt .uleb128 data offset <;> rfl

/-- The signed number at an offset is the signed number of its group. -/
theorem signed_eq (data : Bytes) (offset : Nat) :
    signed data offset = (do
      let group ← groupAt .sleb128 data offset
      return (Int64.ofInt (signedValue group), group.length)) := by
  rw [signed, gather_eq]
  cases hgroup : groupAt .sleb128 data offset with
  | error e => rfl
  | ok group =>
    change Except.ok (_, group.length) = Except.ok (_, group.length)
    rw [signedWord_ofGroup (length_of_groupAt hgroup)]

end MachInspect.Leb128
