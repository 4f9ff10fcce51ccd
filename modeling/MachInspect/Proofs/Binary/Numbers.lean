-- SUMMARY: Numbers written as bytes and read back.
import MachInspect.Proofs.Binary.Groups

/-!
# Numbers as bytes

Words in either byte order and variable-length numbers stand for the number they were written from.
Variable-length numbers may be padded: `Leb128.Unsigned` and `Leb128.Signed` are numbers with the
count of bytes that they are to take, which is at most what the reader accepts.
-/
namespace MachInspect

/-! ## Slices -/

theorem slice?_eq_some {data bytes : Bytes} {offset len : Nat}
    (h : slice? data offset len = some bytes) :
    offset + len ≤ data.length ∧ bytes = (data.drop offset).take len := by
  unfold slice? at h
  split at h
  · exact ⟨‹_›, (Option.some.inj h).symm⟩
  · cases h

/-! ## Words -/

/-- Numbers are cut to 64 bits in the same way, whether they are then signed or not. -/
theorem toUInt64_ofInt (n : Int) : (Int64.ofInt n).toUInt64 = UInt64.ofInt n := by
  rw [← UInt64.toNat_inj, UInt64.ofInt, UInt64.toNat_ofNat']
  change (BitVec.ofInt 64 n).toNat = _
  rw [BitVec.toNat_ofInt]
  have hlt := Int.emod_lt_of_pos n (by decide : (0 : Int) < 2 ^ 64)
  omega

theorem toNat_ofInt (n : Int) : ((UInt64.ofInt n).toNat : Int) = n % 2 ^ 64 := by
  have hnonneg := Int.emod_nonneg n (by decide : (2 ^ 64 : Int) ≠ 0)
  have hlt := Int.emod_lt_of_pos n (by decide : (0 : Int) < 2 ^ 64)
  rw [UInt64.ofInt, UInt64.toNat_ofNat']
  omega

theorem ofInt_natCast (n : Nat) : UInt64.ofInt n = UInt64.ofNat n := by
  rw [← UInt64.toNat_inj, ← Int.ofNat_inj, toNat_ofInt, UInt64.toNat_ofNat']
  omega

theorem ofInt_toNat (a : UInt64) : UInt64.ofInt a.toNat = a := by
  rw [ofInt_natCast, UInt64.ofNat_toNat]

namespace ByteOrder

theorem length_encodeLittle (width n : Nat) : (encodeLittle width n).length = width := by
  induction width generalizing n with
  | zero => rfl
  | succ width ih => simp [encodeLittle, ih]

@[simp] theorem length_encode (order : ByteOrder) (width n : Nat) :
    (order.encode width n).length = width := by
  cases order with
  | little => exact length_encodeLittle width n
  | big => rw [encode, List.length_reverse, length_encodeLittle]

theorem valueLittle_lt (data : Bytes) : valueLittle data < 256 ^ data.length := by
  induction data with
  | nil => simp [valueLittle]
  | cons b rest ih =>
    have hb := b.toNat_lt
    rw [valueLittle, List.length_cons, Nat.pow_succ]
    omega

theorem value_lt (order : ByteOrder) (data : Bytes) : order.value data < 256 ^ data.length := by
  cases order with
  | little => exact valueLittle_lt data
  | big => simpa [value] using valueLittle_lt data.reverse

theorem valueLittle_encodeLittle (width n : Nat) (h : n < 256 ^ width) :
    valueLittle (encodeLittle width n) = n := by
  induction width generalizing n with
  | zero =>
    have hzero : n = 0 := by simpa using h
    rw [hzero]
    rfl
  | succ width ih =>
    have hrest : n / 256 < 256 ^ width := by
      rw [Nat.div_lt_iff_lt_mul (by decide)]
      rwa [Nat.pow_succ] at h
    rw [encodeLittle, valueLittle, ih _ hrest, UInt8.toNat_ofNat']
    omega

theorem value_encode (order : ByteOrder) (width n : Nat) (h : n < 256 ^ width) :
    order.value (order.encode width n) = n := by
  cases order with
  | little => exact valueLittle_encodeLittle width n h
  | big => rw [value, encode, List.reverse_reverse, valueLittle_encodeLittle width n h]

theorem toNat_word_encode (order : ByteOrder) {width n : Nat} (hwidth : width ≤ 8)
    (h : n < 256 ^ width) : (order.word (order.encode width n)).toNat = n := by
  have hpow : 256 ^ width ≤ 256 ^ 8 := Nat.pow_le_pow_right (by decide) hwidth
  rw [word, order.value_encode width n h, UInt64.toNat_ofNat']
  exact Nat.mod_eq_of_lt (by omega)

end ByteOrder

/-- A two's complement number is read back with its sign. -/
theorem signExtend_encode (order : ByteOrder) {width : Nat} {value : Int} (hwidth : width ≤ 8)
    (hlower : -(256 ^ width) ≤ value * 2) (hupper : value * 2 < 256 ^ width) :
    signExtend (order.word (order.encode width (value % 256 ^ width).toNat)) (8 * width)
      = Int64.ofInt value := by
  have hcast : ((256 ^ width : Nat) : Int) = 256 ^ width := Int.natCast_pow 256 width
  have hpow : ((2 ^ (8 * width) : Nat) : Int) = 256 ^ width := by
    rw [Nat.pow_mul]
    exact hcast
  have hpos : (0 : Int) < 256 ^ width := Int.pow_pos (by decide)
  have hstored : ((value % 256 ^ width).toNat : Int) = value % 256 ^ width :=
    Int.toNat_of_nonneg (Int.emod_nonneg _ (by omega))
  have hlt : (value % 256 ^ width).toNat < 256 ^ width := by
    apply Int.ofNat_lt.mp
    rw [hstored, hcast]
    exact Int.emod_lt_of_pos value hpos
  rw [signExtend, order.toNat_word_encode hwidth hlt, hstored, ← hpow, Int.emod_bmod,
    Int.bmod_eq_of_le_mul_two (by omega) (by omega)]

/-! ## Variable-length numbers -/

namespace Leb128

/-- The low `7 * (more + 1)` bits of `n` in `more + 1` bytes. -/
def encode : (more : Nat) → Nat → Bytes
  | 0, n => [UInt8.ofNat (n % 128)]
  | more + 1, n => UInt8.ofNat (n % 128 + 128) :: encode more (n / 128)

@[simp] theorem length_encode (more n : Nat) : (encode more n).length = more + 1 := by
  induction more generalizing n with
  | zero => rfl
  | succ more ih => simp [encode, ih]

theorem group?_encode {limit more : Nat} (h : more < limit) (n : Nat) (rest : Bytes) :
    group? limit (encode more n ++ rest) = some (encode more n) := by
  induction more generalizing limit n with
  | zero =>
    obtain ⟨limit, rfl⟩ := Nat.exists_eq_add_of_lt h
    have hlast : UInt8.ofNat (n % 128) < 0x80 := by
      rw [UInt8.lt_iff_toNat_lt, UInt8.toNat_ofNat']
      change n % 128 % 256 < 128
      omega
    rw [encode, List.cons_append, group?, if_pos hlast]
  | succ more ih =>
    obtain ⟨limit, rfl⟩ : ∃ l, limit = l + 1 := ⟨limit - 1, by omega⟩
    have hcontinues : ¬ UInt8.ofNat (n % 128 + 128) < 0x80 := by
      rw [UInt8.lt_iff_toNat_lt, UInt8.toNat_ofNat']
      change ¬ (n % 128 + 128) % 256 < 128
      omega
    rw [encode, List.cons_append, group?, if_neg hcontinues, ih (by omega)]
    rfl

theorem value_encode (more n : Nat) (h : n < 128 ^ (more + 1)) : value (encode more n) = n := by
  induction more generalizing n with
  | zero =>
    rw [encode, value, value, UInt8.toNat_ofNat']
    omega
  | succ more ih =>
    have hrest : n / 128 < 128 ^ (more + 1) := by
      rw [Nat.div_lt_iff_lt_mul (by decide)]
      rwa [Nat.pow_succ] at h
    rw [encode, value, ih _ hrest, UInt8.toNat_ofNat']
    omega

theorem getLast?_encode (more n : Nat) :
    (encode more n).getLast? = some (UInt8.ofNat (n / 128 ^ more % 128)) := by
  induction more generalizing n with
  | zero => simp [encode]
  | succ more ih =>
    rw [encode, List.getLast?_cons, ih, Nat.div_div_eq_div_mul, Nat.pow_succ', Option.getD_some]

/-- The sign is the top bit of the last seven. -/
theorem isNegative_encode (more n : Nat) (h : n < 128 ^ (more + 1)) :
    isNegative (encode more n) = decide (64 * 128 ^ more ≤ n) := by
  have hbit : ∀ m < 128, (UInt8.ofNat m &&& 0x40 ≠ 0) = (64 ≤ m) := by decide
  have hlast : n / 128 ^ more < 128 := by
    rw [Nat.div_lt_iff_lt_mul (Nat.pow_pos (by decide))]
    rwa [Nat.pow_succ'] at h
  have hle : (64 ≤ n / 128 ^ more) = (64 * 128 ^ more ≤ n) :=
    propext (Nat.le_div_iff_mul_le (Nat.pow_pos (by decide)))
  rw [isNegative, getLast?_encode, Nat.mod_eq_of_lt hlast]
  simp only [hbit _ hlast, hle]

theorem groupAt_encode {more : Nat} (hmore : more < maxLength) {data rest : Bytes} {offset n : Nat}
    (h : data.drop offset = encode more n ++ rest) (item : Item) :
    groupAt item data offset = .ok (encode more n) := by
  rw [groupAt, h, group?_encode hmore]

/-- How many bytes the number at the start of `data` has, however long it is. -/
def width (data : Bytes) : Nat := (data.takeWhile fun b => ¬ b < 0x80).length + 1

theorem width_append {high rest : Bytes} {last : UInt8} (hhigh : ∀ b ∈ high, ¬ b < 0x80)
    (hlast : last < 0x80) : width (high ++ last :: rest) = high.length + 1 := by
  rw [width, List.takeWhile_append_of_pos fun b hb => decide_eq_true (hhigh b hb)]
  simp [hlast]

/-- The bytes of a group that was found, in any data that go on after it. -/
theorem of_groupAt {item : Item} {data group : Bytes} {offset : Nat}
    (h : groupAt item data offset = .ok group) :
    group.length ≤ maxLength ∧ ∀ more, (data.drop offset ++ more).take group.length = group ∧
      width (data.drop offset ++ more) = group.length := by
  obtain ⟨high, last, rest, rfl, hdata, hhigh, hlast, hlength⟩ :=
    exists_of_group? (group?_of_groupAt h)
  have hlength_eq : (high ++ [last]).length = high.length + 1 := by simp
  refine ⟨hlength_eq ▸ hlength, fun more => ?_⟩
  have hsplit : data.drop offset ++ more = high ++ [last] ++ (rest ++ more) := by
    simp [hdata]
  refine ⟨hsplit ▸ List.take_left, ?_⟩
  rw [hsplit, List.append_assoc, List.singleton_append, width_append hhigh hlast, hlength_eq]

/-- A number in `more + 1` bytes. -/
structure Unsigned where
  value : Nat
  more : Nat
  more_lt : more < maxLength
  value_lt : value < 128 ^ (more + 1)

namespace Unsigned

def bytes (u : Unsigned) : Bytes := encode u.more u.value

@[simp] theorem length_bytes (u : Unsigned) : u.bytes.length = u.more + 1 := length_encode _ _

theorem value_lt_word (u : Unsigned) : u.value < 2 ^ 64 := by
  have hlt : u.value < 2 ^ 56 := Nat.lt_of_lt_of_le u.value_lt (pow_128_le u.more_lt)
  exact Nat.lt_trans hlt (by decide)

@[simp] theorem toNat_value (u : Unsigned) : (UInt64.ofNat u.value).toNat = u.value :=
  UInt64.toNat_ofNat_of_lt' u.value_lt_word

theorem read (u : Unsigned) {data rest : Bytes} {offset : Nat}
    (h : data.drop offset = u.bytes ++ rest) :
    unsigned data offset = .ok (UInt64.ofNat u.value, u.bytes.length) := by
  rw [unsigned_eq, groupAt_encode u.more_lt h]
  change Except.ok (UInt64.ofNat (Leb128.value u.bytes), u.bytes.length) = _
  rw [bytes, value_encode u.more u.value u.value_lt]

end Unsigned

/-- A signed number in `more + 1` bytes. -/
structure Signed where
  value : Int
  more : Nat
  more_lt : more < maxLength
  le_value : -(64 * 128 ^ more) ≤ value
  value_lt : value < 64 * 128 ^ more

namespace Signed

/-- What is stored: the number without its sign, up to a multiple of what the bytes can hold. -/
def stored (u : Signed) : Nat := (u.value % 128 ^ (u.more + 1)).toNat

def bytes (u : Signed) : Bytes := encode u.more u.stored

@[simp] theorem length_bytes (u : Signed) : u.bytes.length = u.more + 1 := length_encode _ _

theorem pow_more (u : Signed) : (128 : Int) ^ (u.more + 1) = 2 * (64 * 128 ^ u.more) := by
  rw [Int.pow_succ]
  omega

/-- Negative numbers are stored past the middle. -/
theorem stored_eq (u : Signed) :
    (u.stored : Int) = if u.value < 0 then u.value + 128 ^ (u.more + 1) else u.value := by
  have hpos : (0 : Int) < 128 ^ (u.more + 1) := Int.pow_pos (by decide)
  have hlower := u.le_value
  have hupper := u.value_lt
  rw [stored, Int.toNat_of_nonneg (Int.emod_nonneg _ (by omega))]
  rw [u.pow_more] at hpos ⊢
  split
  · rw [← Int.add_emod_right]
    exact Int.emod_eq_of_lt (by omega) (by omega)
  · exact Int.emod_eq_of_lt (by omega) (by omega)

theorem stored_lt (u : Signed) : u.stored < 128 ^ (u.more + 1) := by
  have hstored := u.stored_eq
  have hpow := u.pow_more
  have hlower := u.le_value
  have hupper := u.value_lt
  have hlt : (u.stored : Int) < 128 ^ (u.more + 1) := by
    split at hstored <;> omega
  exact_mod_cast hlt

theorem signedValue_bytes (u : Signed) : signedValue u.bytes = u.value := by
  have hstored := u.stored_eq
  have hpow := u.pow_more
  have hlower := u.le_value
  have hupper := u.value_lt
  have hcast : ((64 * 128 ^ u.more : Nat) : Int) = 64 * 128 ^ u.more := by push_cast; rfl
  rw [signedValue, length_bytes, bytes, isNegative_encode _ _ u.stored_lt,
    Leb128.value_encode _ _ u.stored_lt]
  by_cases hnegative : u.value < 0
  · rw [if_pos hnegative] at hstored
    rw [if_pos (decide_eq_true (by omega))]
    omega
  · rw [if_neg hnegative] at hstored
    rw [if_neg (by rw [decide_eq_true_iff]; omega)]
    exact hstored

@[simp] theorem toInt_value (u : Signed) : (Int64.ofInt u.value).toInt = u.value := by
  have hmore : u.more ≤ 7 := Nat.le_of_lt_succ u.more_lt
  have hpow : 128 ^ u.more ≤ 128 ^ 7 := Nat.pow_le_pow_right (by decide) hmore
  have hcast : ((128 ^ u.more : Nat) : Int) = 128 ^ u.more := Int.natCast_pow 128 u.more
  have hlower := u.le_value
  have hupper := u.value_lt
  exact Int64.toInt_ofInt_of_le (by omega) (by omega)

theorem read (u : Signed) {data rest : Bytes} {offset : Nat}
    (h : data.drop offset = u.bytes ++ rest) :
    signed data offset = .ok (Int64.ofInt u.value, u.bytes.length) := by
  rw [signed_eq, groupAt_encode u.more_lt h, ← u.signedValue_bytes]
  rfl

end Signed

end Leb128

end MachInspect
