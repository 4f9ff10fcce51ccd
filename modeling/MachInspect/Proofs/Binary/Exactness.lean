-- SUMMARY: Variable-length numbers are read exactly, and the shortest encodings are undone.
import Mathlib.Algebra.BigOperators.Group.Finset.Basic
import Mathlib.Algebra.BigOperators.Ring.Finset
import MachInspect.Proofs.Binary.Numbers

/-!
# Exact reading

What the bytes from an offset on stand for is said here of their positions alone: which byte ends
the number (`length?`), and the sum of what each byte adds (`sevenBitSum`). `reading` puts this
together with the ways in which there is no number. Both readers give just that for all data, so
that they undo the shortest encodings, `minimal` and `minimalSigned`, whatever follows them.
-/
namespace MachInspect.Leb128

/-! ## Numbers by the positions of their bytes -/

section

variable (data : Bytes) (offset : Nat)

/-- The `i`-th byte from `offset` on, counted from zero. -/
def byteAt (i : Nat) : Nat := (data.getD (offset + i) 0).toNat

/-- The number of bytes up to the first one without its top bit. -/
def length? : Option Nat :=
  ((data.drop offset).findIdx? fun b => b.toNat < 128).map (· + 1)

/-- Seven bits of each of `n` bytes, the first byte lowest. -/
def sevenBitSum (n : Nat) : Nat := ∑ i ∈ Finset.range n, byteAt data offset i % 128 * 128 ^ i

/-- The sum of `n` bytes, of which the last has the sign in its bit 6. -/
def signedSum (n : Nat) : Int :=
  if (byteAt data offset (n - 1)).testBit 6 then sevenBitSum data offset n - 128 ^ n
  else sevenBitSum data offset n

/-- What is read at `offset` if `n` bytes stand for `number n`. -/
def reading {α : Type} (item : Item) (number : Nat → α) : Except Error (α × Nat) :=
  match length? data offset with
  | some n => if n ≤ 8 then .ok (number n, n) else .error (.overflow item offset)
  | none =>
    let available := data.length - offset
    if available < 8 then .error (.truncated item offset (available + 1) available)
    else .error (.overflow item offset)

end

/-! ## Groups by the positions of their bytes -/

theorem group?_eq (limit : Nat) (data : Bytes) :
    group? limit data =
      match data.findIdx? fun b => b.toNat < 128 with
      | some k => if k < limit then some (data.take (k + 1)) else none
      | none => none := by
  induction data generalizing limit with
  | nil => simp
  | cons b rest ih =>
    rw [List.findIdx?_cons]
    cases limit with
    | zero =>
      rw [group?]
      split <;> simp
    | succ limit =>
      rw [group?, ih limit]
      by_cases hlast : b < 0x80
      · have hb : b.toNat < 128 := hlast
        simp [hlast, hb]
      · have hb : ¬ b.toNat < 128 := hlast
        rw [if_neg hlast, if_neg (by simpa using hb)]
        cases rest.findIdx? fun b => b.toNat < 128 with
        | none => rfl
        | some k =>
          simp only [Option.map_some, Nat.add_lt_add_iff_right]
          split <;> rfl

/-- Positions alone say what there is to be read. -/
theorem reading_eq {α : Type} (data : Bytes) (offset : Nat) (item : Item) (number : Nat → α) :
    reading data offset item number =
      (groupAt item data offset).map fun group => (number group.length, group.length) := by
  have hgroup := group?_eq maxLength (data.drop offset)
  rw [reading, length?, groupAt]
  cases hlast : (data.drop offset).findIdx? fun b => b.toNat < 128 with
  | none =>
    rw [hlast] at hgroup
    rw [hgroup]
    dsimp only [Option.map_none]
    change _ = Except.map _ (if data.length - offset < 8 then _ else _)
    split <;> rfl
  | some k =>
    have hinside : k < data.length - offset := by
      obtain ⟨hlt, -⟩ := List.findIdx?_eq_some_iff_getElem.mp hlast
      rwa [List.length_drop] at hlt
    rw [hlast] at hgroup
    dsimp only at hgroup
    dsimp only [Option.map_some]
    by_cases hshort : k < maxLength
    · have hlength : ((data.drop offset).take (k + 1)).length = k + 1 := by
        rw [List.length_take, List.length_drop, Nat.min_eq_left hinside]
      have hle : k + 1 ≤ 8 := hshort
      rw [hgroup, if_pos hshort, if_pos hle]
      dsimp only [Except.map]
      rw [hlength]
    · have hlong : 8 ≤ k := Nat.le_of_not_lt hshort
      have hmore : ¬ data.length - offset < maxLength := fun h =>
        hshort (Nat.lt_trans hinside h)
      rw [hgroup, if_neg hshort, if_neg (by omega)]
      dsimp only
      rw [if_neg hmore]
      rfl

theorem value_eq_sum (group : Bytes) :
    value group = ∑ i ∈ Finset.range group.length, byteAt group 0 i % 128 * 128 ^ i := by
  induction group with
  | nil => rfl
  | cons b rest ih =>
    have hrest : ∀ i, byteAt (b :: rest) 0 (i + 1) % 128 * 128 ^ (i + 1)
        = 128 * (byteAt rest 0 i % 128 * 128 ^ i) := by
      intro i
      have hbyte : byteAt (b :: rest) 0 (i + 1) = byteAt rest 0 i := by simp [byteAt]
      rw [hbyte, Nat.pow_succ']
      exact Nat.mul_left_comm _ _ _
    rw [List.length_cons, Finset.sum_range_succ', value, ih, Finset.mul_sum, Nat.add_comm]
    simp only [hrest]
    simp [byteAt]

theorem isNegative_eq_testBit (group : Bytes) :
    isNegative group = (byteAt group 0 (group.length - 1)).testBit 6 := by
  have hlast : (Gathered.ofGroup group).last.toNat = byteAt group 0 (group.length - 1) := by
    rw [Gathered.ofGroup, List.getLastD_eq_getLast?, List.getLast?_eq_getElem?, byteAt,
      Nat.zero_add, List.getD_eq_getElem?_getD]
  have hbit : (Gathered.ofGroup group).last &&& 0x40 = 0 ↔ _ :=
    and_bit_eq_zero_iff (Gathered.ofGroup group).last (by decide : 6 < 8)
  simp only [isNegative_eq, ← hlast, ne_eq, hbit, Bool.not_eq_false, Bool.decide_eq_true]

theorem toInt_signedValue {group : Bytes} (h : group.length ≤ maxLength) :
    (Int64.ofInt (signedValue group)).toInt = signedValue group := by
  have hpow := pow_128_le h
  have hcast : ((128 ^ group.length : Nat) : Int) = 128 ^ group.length := Int.natCast_pow _ _
  have hlt := value_lt group
  have hbounds :
      -128 ^ group.length ≤ signedValue group ∧ signedValue group < 128 ^ group.length := by
    unfold signedValue
    split <;> omega
  exact Int64.toInt_ofInt_of_le (by omega) (by omega)

section

variable {item : Item} {data group : Bytes} {offset : Nat}

theorem byteAt_of_groupAt (h : groupAt item data offset = .ok group) {i : Nat}
    (hi : i < group.length) : byteAt group 0 i = byteAt data offset i := by
  have htake := ((of_groupAt h).2 []).1
  rw [List.append_nil] at htake
  have hbyte : group[0 + i]? = data[offset + i]? := by
    rw [Nat.zero_add, ← htake, List.getElem?_take_of_lt hi, List.getElem?_drop]
  rw [byteAt, byteAt, List.getD_eq_getElem?_getD, List.getD_eq_getElem?_getD, hbyte]

theorem value_of_groupAt (h : groupAt item data offset = .ok group) :
    value group = sevenBitSum data offset group.length := by
  rw [value_eq_sum]
  exact Finset.sum_congr rfl fun i hi => by rw [byteAt_of_groupAt h (Finset.mem_range.mp hi)]

theorem signedValue_of_groupAt (h : groupAt item data offset = .ok group) :
    signedValue group = signedSum data offset group.length := by
  have hpos : 0 < group.length := by
    obtain ⟨high, last, rest, rfl, -⟩ := exists_of_group? (group?_of_groupAt h)
    simp
  rw [signedValue, isNegative_eq_testBit, value_of_groupAt h, signedSum,
    byteAt_of_groupAt h (Nat.sub_one_lt_of_lt hpos)]

end

/-! ## What the readers give -/

theorem unsigned_map_toNat (data : Bytes) (offset : Nat) :
    (unsigned data offset).map (fun (v, n) => (v.toNat, n)) =
      reading data offset .uleb128 (sevenBitSum data offset) := by
  rw [unsigned_eq, reading_eq]
  cases hgroup : groupAt .uleb128 data offset with
  | error e => rfl
  | ok group =>
    have hvalue := toNat_word_ofGroup (length_of_groupAt hgroup)
    change Except.ok ((Gathered.ofGroup group).word.toNat, group.length) = Except.ok _
    rw [hvalue, value_of_groupAt hgroup]

theorem signed_map_toInt (data : Bytes) (offset : Nat) :
    (signed data offset).map (fun (v, n) => (v.toInt, n)) =
      reading data offset .sleb128 (signedSum data offset) := by
  rw [signed_eq, reading_eq]
  cases hgroup : groupAt .sleb128 data offset with
  | error e => rfl
  | ok group =>
    change Except.ok ((Int64.ofInt (signedValue group)).toInt, group.length) = Except.ok _
    rw [toInt_signedValue (length_of_groupAt hgroup), signedValue_of_groupAt hgroup]

/-! ## Shortest encodings -/

/-- Seven bits a byte until the rest fits into one. -/
def minimal (n : Nat) : Bytes :=
  if n < 128 then [UInt8.ofNat n] else UInt8.ofNat (n % 128 + 128) :: minimal (n / 128)

/-- Seven bits a byte until the rest fits into one with its sign. -/
def minimalSigned (v : Int) : Bytes :=
  if -64 ≤ v ∧ v < 64 then [UInt8.ofNat (v % 128).toNat]
  else UInt8.ofNat ((v % 128).toNat + 128) :: minimalSigned (v / 128)
termination_by v.natAbs
decreasing_by omega

/-- The shortest encoding has a fixed number of bytes, which no encoding of the number goes below. -/
theorem minimal_eq_encode {more n : Nat} (h : n < 128 ^ (more + 1)) :
    ∃ m ≤ more, n < 128 ^ (m + 1) ∧ minimal n = encode m n := by
  induction more generalizing n with
  | zero =>
    have hlt : n < 128 := by simpa using h
    refine ⟨0, Nat.le_refl 0, h, ?_⟩
    rw [minimal, if_pos hlt, encode, Nat.mod_eq_of_lt hlt]
  | succ more ih =>
    rw [minimal]
    by_cases hlt : n < 128
    · refine ⟨0, Nat.zero_le _, by simpa using hlt, ?_⟩
      rw [if_pos hlt, encode, Nat.mod_eq_of_lt hlt]
    · have hrest : n / 128 < 128 ^ (more + 1) := by
        rw [Nat.div_lt_iff_lt_mul (by decide)]
        rwa [Nat.pow_succ] at h
      obtain ⟨m, hm, hfits, hencode⟩ := ih hrest
      refine ⟨m + 1, Nat.succ_le_succ hm, ?_, ?_⟩
      · rw [Nat.pow_succ]
        exact (Nat.div_lt_iff_lt_mul (by decide)).mp hfits
      · rw [if_neg hlt, hencode, encode]

/-- A number modulo a power of 128 is its lowest seven bits below what is left of the others. -/
theorem emod_mul_128 (v : Int) {q : Int} (hq : 0 < q) :
    v % (q * 128) = 128 * (v / 128 % q) + v % 128 := by
  have hnonneg := Int.emod_nonneg (v / 128) (Int.ne_of_gt hq)
  have hlt := Int.emod_lt_of_pos (v / 128) hq
  have hlow := Int.emod_add_mul_ediv v 128
  have hhigh := Int.emod_add_mul_ediv (v / 128) q
  have hassoc : q * 128 * (v / 128 / q) = 128 * (q * (v / 128 / q)) := by
    rw [Int.mul_comm q, Int.mul_assoc]
  have hsplit : v = 128 * (v / 128 % q) + v % 128 + q * 128 * (v / 128 / q) := by omega
  conv => lhs; rw [hsplit]
  rw [Int.add_mul_emod_self_left]
  exact Int.emod_eq_of_lt (by omega) (by omega)

theorem minimalSigned_of_fits {v : Int} (h : -64 ≤ v ∧ v < 64) :
    minimalSigned v = encode 0 (v % 128).toNat := by
  have hmod : (v % 128).toNat % 128 = (v % 128).toNat := by omega
  rw [minimalSigned, if_pos h, encode, hmod]

/-- The same for signed numbers, which are stored without their sign. -/
theorem minimalSigned_eq_encode {more : Nat} {v : Int} (hlower : -(64 * 128 ^ more) ≤ v)
    (hupper : v < 64 * 128 ^ more) :
    ∃ m ≤ more, -(64 * 128 ^ m) ≤ v ∧ v < 64 * 128 ^ m ∧
      minimalSigned v = encode m (v % 128 ^ (m + 1)).toNat := by
  induction more generalizing v with
  | zero =>
    exact ⟨0, Nat.le_refl 0, hlower, hupper, minimalSigned_of_fits ⟨by omega, by omega⟩⟩
  | succ more ih =>
    by_cases h : -64 ≤ v ∧ v < 64
    · exact ⟨0, Nat.zero_le _, by omega, by omega, minimalSigned_of_fits h⟩
    · rw [Int.pow_succ] at hlower hupper
      have hrest : -(64 * 128 ^ more) ≤ v / 128 ∧ v / 128 < 64 * 128 ^ more := by omega
      obtain ⟨m, hm, hlower', hupper', hencode⟩ := ih hrest.1 hrest.2
      have hpos : (0 : Int) < 128 ^ (m + 1) := Int.pow_pos (by decide)
      have hnonneg := Int.emod_nonneg (v / 128) (Int.ne_of_gt hpos)
      have hstored := emod_mul_128 v hpos
      have hlow : (v % 128 ^ (m + 1 + 1)).toNat % 128 = (v % 128).toNat := by
        rw [Int.pow_succ]
        omega
      have hhigh : (v % 128 ^ (m + 1 + 1)).toNat / 128 = (v / 128 % 128 ^ (m + 1)).toNat := by
        rw [Int.pow_succ]
        omega
      refine ⟨m + 1, Nat.succ_le_succ hm, ?_, ?_, ?_⟩
      · rw [Int.pow_succ]
        omega
      · rw [Int.pow_succ]
        omega
      · rw [minimalSigned, if_neg h, hencode, encode, hlow, hhigh]

theorem exists_unsigned {n : Nat} (h : n < 2 ^ 56) :
    ∃ u : Unsigned, u.value = n ∧ u.bytes = minimal n := by
  have hpow : 2 ^ 56 = 128 ^ (7 + 1) := by decide
  obtain ⟨m, hm, hfits, hencode⟩ := minimal_eq_encode (hpow ▸ h)
  exact ⟨⟨n, m, Nat.lt_succ_of_le hm, hfits⟩, rfl, hencode.symm⟩

theorem exists_signed {v : Int} (hlower : -2 ^ 55 ≤ v) (hupper : v < 2 ^ 55) :
    ∃ u : Signed, u.value = v ∧ u.bytes = minimalSigned v := by
  have hpow : (2 : Int) ^ 55 = 64 * 128 ^ 7 := by decide
  obtain ⟨m, hm, hlower', hupper', hencode⟩ :=
    minimalSigned_eq_encode (hpow ▸ hlower) (hpow ▸ hupper)
  exact ⟨⟨v, m, Nat.lt_succ_of_le hm, hlower', hupper'⟩, rfl, hencode.symm⟩

theorem length_minimal_le (u : Unsigned) : (minimal u.value).length ≤ u.bytes.length := by
  obtain ⟨m, hm, -, hencode⟩ := minimal_eq_encode u.value_lt
  rw [hencode, length_encode, u.length_bytes]
  exact Nat.succ_le_succ hm

theorem length_minimalSigned_le (u : Signed) :
    (minimalSigned u.value).length ≤ u.bytes.length := by
  obtain ⟨m, hm, -, -, hencode⟩ := minimalSigned_eq_encode u.le_value u.value_lt
  rw [hencode, length_encode, u.length_bytes]
  exact Nat.succ_le_succ hm

/-! ## Numbers that are cut off -/

theorem continues_of_mem_take {more k n : Nat} (hk : k ≤ more) :
    ∀ b ∈ (encode more n).take k, ¬ b < 0x80 := by
  have hgroup := group?_encode (Nat.lt_succ_self more) n []
  obtain ⟨high, last, -, hencode, -, hhigh, -, -⟩ := exists_of_group? hgroup
  have hlength : high.length = more := by
    have h := congrArg List.length hencode
    rw [length_encode, List.length_append, List.length_singleton] at h
    omega
  rw [hencode, List.take_append_of_le_length (hlength ▸ hk)]
  exact fun b hb => hhigh b (List.mem_of_mem_take hb)

/-- A number of at most eight bytes is missed if the last of them are missing. -/
theorem groupAt_take_encode {more k n : Nat} (hmore : more < maxLength)
    (hk : k < (encode more n).length) (before : Bytes) (item : Item) :
    groupAt item (before ++ (encode more n).take k) before.length =
      .error (.truncated item before.length (k + 1) k) := by
  have hlength : ((encode more n).take k).length = k := List.length_take_of_le (Nat.le_of_lt hk)
  have hshort : k ≤ more := by
    rw [length_encode] at hk
    exact Nat.le_of_lt_succ hk
  have hnone : ((encode more n).take k).findIdx? (fun b => b.toNat < 128) = none := by
    rw [List.findIdx?_eq_none_iff]
    exact fun b hb => decide_eq_false (continues_of_mem_take hshort b hb)
  have havailable :
      (before ++ (encode more n).take k).length - before.length = k := by
    rw [List.length_append, Nat.add_sub_cancel_left, hlength]
  rw [groupAt, List.drop_left, group?_eq, hnone, havailable]
  exact if_pos (Nat.lt_of_le_of_lt hshort hmore)

/-! ## Exactness -/

/-- Reading is exact. For all data and offsets the readers give the number that the positions of the
bytes say, with its length, or say that the data end before the number does, or that the number has
more than eight bytes. So they undo the encoding of every number of 56 bits that takes the fewest
bytes, whatever stands before and after it. -/
theorem numbers_read_exactly :
    (∀ data offset,
      (unsigned data offset).map (fun (v, n) => (v.toNat, n)) =
        reading data offset .uleb128 (sevenBitSum data offset) ∧
      (signed data offset).map (fun (v, n) => (v.toInt, n)) =
        reading data offset .sleb128 (signedSum data offset)) ∧
    (∀ number : Nat, number < 2 ^ 56 → ∀ before after : Bytes,
      (unsigned (before ++ (minimal number ++ after)) before.length).map
        (fun (v, n) => (v.toNat, n)) = .ok (number, (minimal number).length)) ∧
    (∀ number : Int, -2 ^ 55 ≤ number → number < 2 ^ 55 → ∀ before after : Bytes,
      (signed (before ++ (minimalSigned number ++ after)) before.length).map
        (fun (v, n) => (v.toInt, n)) = .ok (number, (minimalSigned number).length)) ∧
    (∀ u : Unsigned, (minimal u.value).length ≤ u.bytes.length) ∧
    ∀ u : Signed, (minimalSigned u.value).length ≤ u.bytes.length := by
  refine ⟨fun data offset => ⟨unsigned_map_toNat data offset, signed_map_toInt data offset⟩,
    fun number hlt before after => ?_, fun number hlower hupper before after => ?_,
    length_minimal_le, length_minimalSigned_le⟩
  · obtain ⟨u, rfl, hbytes⟩ := exists_unsigned hlt
    rw [← hbytes, u.read List.drop_left]
    exact congrArg (fun v => Except.ok (v, u.bytes.length)) u.toNat_value
  · obtain ⟨u, rfl, hbytes⟩ := exists_signed hlower hupper
    rw [← hbytes, u.read List.drop_left]
    exact congrArg (fun v => Except.ok (v, u.bytes.length)) u.toInt_value

/-- Eight bytes of which the last has bit 6, unsigned and signed, and the largest and the smallest
number that eight bytes hold. -/
theorem eight_bytes_read_exactly :
    (unsigned [0xaa, 0x85, 0x80, 0x80, 0x80, 0x80, 0x80, 0x80, 0x40, 0xaa] 1).map
        (fun (v, n) => (v.toNat, n)) = .ok (64 * 128 ^ 7 + 5, 8) ∧
    (signed [0xaa, 0x85, 0x80, 0x80, 0x80, 0x80, 0x80, 0x80, 0x40, 0xaa] 1).map
        (fun (v, n) => (v.toInt, n)) = .ok (5 - 64 * 128 ^ 7, 8) ∧
    (unsigned (0xaa :: (minimal (2 ^ 56 - 1) ++ [0xaa])) 1).map (fun (v, n) => (v.toNat, n))
      = .ok (2 ^ 56 - 1, (minimal (2 ^ 56 - 1)).length) ∧
    (signed (0xaa :: (minimalSigned (-2 ^ 55) ++ [0xaa])) 1).map (fun (v, n) => (v.toInt, n))
      = .ok (-2 ^ 55, (minimalSigned (-2 ^ 55)).length) :=
  ⟨(numbers_read_exactly.1 _ 1).1.trans rfl, (numbers_read_exactly.1 _ 1).2.trans rfl,
    numbers_read_exactly.2.1 _ (by decide) [0xaa] [0xaa],
    numbers_read_exactly.2.2.1 _ (by decide) (by decide) [0xaa] [0xaa]⟩

end MachInspect.Leb128
