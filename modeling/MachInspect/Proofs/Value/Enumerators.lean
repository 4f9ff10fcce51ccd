-- SUMMARY: Which enumerators are shown by their name.
import MachInspect.Proofs.Binary.Numbers
import MachInspect.Proofs.Value.OwnBytes

/-!
# Enumerators

An object of an enumeration holds the two's complement of an enumerator's value. In two, four and
eight bytes the value is read back with its sign, and the enumerator's name is shown. A single byte
is read without a sign, so there a negative value is taken for the one that is 256 larger.
-/
namespace MachInspect.Value

/-- The two's complement of a number in `size` bytes. -/
def twosComplement (order : ByteOrder) (size : UInt64) (value : Int64) : Bytes :=
  order.encode size.toNat (value.toInt % 256 ^ size.toNat).toNat

/-- `value` is one of the numbers that `size` bytes hold in two's complement. -/
def FitsSigned (size : UInt64) (value : Int64) : Prop :=
  -2 ^ (8 * size.toNat - 1) ≤ value.toInt ∧ value.toInt < 2 ^ (8 * size.toNat - 1)

instance (size : UInt64) (value : Int64) : Decidable (FitsSigned size value) :=
  inferInstanceAs (Decidable (_ ∧ _))

/-- What an enumeration of `size` bytes reads where `value` is stored. -/
def readBack (size : UInt64) (value : Int64) : Int64 :=
  if size = 1 ∧ value < 0 then value + 256 else value

section

variable {env : Env} {size : UInt64} {value : Int64}

@[simp] theorem length_twosComplement (order : ByteOrder) (size : UInt64) (value : Int64) :
    (twosComplement order size value).length = size.toNat :=
  order.length_encode _ _

theorem signed_of_part {m : Type → Type} [Monad m] [LawfulMonad m] {slices : Slices m}
    {data stored : Bytes} (hpart : slices.part data 0 size.toNat = pure stored)
    (hvalue : env.order.signed? stored = some value) :
    signed slices env data size = pure value := by
  rw [signed, hpart, liftM_pure, pure_bind, hvalue]

theorem part_twosComplement (rest : Bytes) :
    Slices.within.part (twosComplement env.order size value ++ rest) 0 size.toNat =
      twosComplement env.order size value := by
  change ((twosComplement env.order size value ++ rest).drop 0).take size.toNat = _
  rw [List.drop_zero, List.take_left' (length_twosComplement ..)]

/-- An integer is read back with its sign. -/
theorem signed?_twosComplement (order : ByteOrder) (hsize : size ∈ [1, 2, 4, 8])
    (hfits : FitsSigned size value) :
    order.signed? (twosComplement order size value) = some value := by
  obtain ⟨hlower, hupper⟩ := hfits
  have hwidth : size.toNat ∈ [1, 2, 4, 8] := by
    simp only [List.mem_cons, List.not_mem_nil, or_false] at hsize
    obtain rfl | rfl | rfl | rfl := hsize <;> decide
  rw [ByteOrder.signed?, ByteOrder.unsigned?, length_twosComplement, if_pos hwidth,
    Option.map_some, twosComplement]
  generalize size.toNat = width at hwidth hlower hupper
  have hvalue : signExtend (order.word (order.encode width (value.toInt % 256 ^ width).toNat))
      (8 * width) = Int64.ofInt value.toInt := by
    simp only [List.mem_cons, List.not_mem_nil, or_false] at hwidth
    obtain rfl | rfl | rfl | rfl := hwidth <;>
      exact signExtend_encode order (by omega) (by omega) (by omega)
  rw [hvalue, Int64.ofInt_toInt]

theorem twosComplement_one (order : ByteOrder) (value : Int64) :
    twosComplement order 1 value = [UInt8.ofNat (value.toInt % 256).toNat] := by
  have hbyte : UInt8.ofNat ((value.toInt % 256).toNat % 256) =
      UInt8.ofNat (value.toInt % 256).toNat := by
    rw [Nat.mod_eq_of_lt (by omega)]
  cases order with
  | little | big => exact congrArg (fun b => [b]) hbyte

/-- A single byte is read without a sign. -/
theorem toInt64_byte (hfits : FitsSigned 1 value) :
    (UInt8.ofNat (value.toInt % 256).toNat).toUInt64.toInt64 =
      if value < 0 then value + 256 else value := by
  obtain ⟨hlower, hupper⟩ : -128 ≤ value.toInt ∧ value.toInt < 128 := hfits
  have hbyte : (UInt8.ofNat (value.toInt % 256).toNat).toUInt64.toInt64.toInt =
      value.toInt % 256 := by
    rw [← Int64.toInt_toBitVec, BitVec.toInt_eq_toNat_bmod]
    change Int.bmod (UInt8.ofNat (value.toInt % 256).toNat).toUInt64.toNat (2 ^ 64) = _
    rw [UInt8.toNat_toUInt64, UInt8.toNat_ofNat', Nat.mod_eq_of_lt (by omega),
      Int.toNat_of_nonneg (by omega)]
    exact Int.bmod_eq_of_le (by omega) (by omega)
  rw [← Int64.toInt_inj, hbyte]
  have hneg : value < 0 ↔ value.toInt < 0 := Int64.lt_iff_toInt_lt
  by_cases hlt : value < 0
  · have hlt' := hneg.1 hlt
    have hsum : (value + 256).toInt = value.toInt + 256 := by
      rw [Int64.toInt_add]
      exact Int.bmod_eq_of_le (by change _ ≤ value.toInt + 256; omega)
        (by change value.toInt + 256 < _; omega)
    rw [if_pos hlt, hsum]
    omega
  · have hge := mt hneg.2 hlt
    rw [if_neg hlt]
    omega

/-- An enumeration reads its number back with the sign, unless it has a single byte. -/
theorem enumNumber_twosComplement (hsize : size ∈ [1, 2, 4, 8]) (hfits : FitsSigned size value)
    (rest : Bytes) :
    enumNumber .within env size (.bytes (twosComplement env.order size value ++ rest)) =
      pure (readBack size value) := by
  by_cases hone : size = 1
  · subst hone
    have hread : readBack 1 value = if value < 0 then value + 256 else value := by
      simp only [readBack, true_and]
    rw [hread, ← toInt64_byte hfits, twosComplement_one]
    rfl
  · have hread : readBack size value = value := by simp only [readBack, hone, false_and, if_false]
    rw [hread, enumNumber, if_neg hone]
    exact signed_of_part (part_twosComplement rest) (signed?_twosComplement env.order hsize hfits)

/-- The first enumerator of a value gives it its text. -/
theorem enumText_of_first {before after : List (String × Int64)} {name : String}
    (hfirst : ∀ entry ∈ before, entry.2 ≠ value) :
    enumText (before ++ (name, value) :: after) value = name := by
  rw [enumText, List.find?_append, List.find?_eq_none.2 ?_]
  · simp
  · intro entry hentry
    simpa using hfirst entry hentry

end

/-- An enumeration shows the number that it reads back. -/
theorem render_enumeration (env : Env) (name : String) {size : UInt64} {value : Int64}
    (hsize : size ∈ [1, 2, 4, 8]) (hfits : FitsSigned size value)
    (values : List (String × Int64)) (rest : Bytes) :
    render env false (.bytes (twosComplement env.order size value ++ rest))
        (.enumeration name (some size) values)
      = .ok (enumText values (readBack size value)) := by
  have hlength : size.toNat ≤ (twosComplement env.order size value ++ rest).length := by simp
  have htype : (ValueType.enumeration name (some size) values).size = some size := rfl
  rw [render, renderBy, text, Storage.length, sized_of_le htype hlength, lift_ok_bind,
    enumNumber_twosComplement hsize hfits]
  rfl

/-- An enumeration that holds the value of an enumerator shows the name of the first enumerator of
that value, except that a negative value in a single byte is shown as the value that is 256 larger:
by the same name only if that one happens to have it too. -/
theorem enumerator_shown_iff (env : Env) (name : String) {size : UInt64}
    (hsize : size ∈ [1, 2, 4, 8]) {before after : List (String × Int64)} {enumerator : String}
    {value : Int64} (hfits : FitsSigned size value)
    (hfirst : ∀ entry ∈ before, entry.2 ≠ value) (rest : Bytes) :
    render env false (.bytes (twosComplement env.order size value ++ rest))
        (.enumeration name (some size) (before ++ (enumerator, value) :: after))
      = .ok enumerator ↔
    (size = 1 → value < 0 →
      enumText (before ++ (enumerator, value) :: after) (value + 256) = enumerator) := by
  rw [render_enumeration env name hsize hfits, Except.ok.injEq]
  by_cases hbyte : size = 1 ∧ value < 0
  · rw [readBack, if_pos hbyte]
    exact ⟨fun h _ _ => h, fun h => h hbyte.1 hbyte.2⟩
  · rw [readBack, if_neg hbyte, enumText_of_first hfirst]
    exact ⟨fun _ hone hneg => absurd ⟨hone, hneg⟩ hbyte, fun _ => rfl⟩

/-- In two bytes a negative value is shown by its name, whatever follows. -/
theorem negative_enumerator_shown :
    render ⟨.big, none⟩ false (.bytes [0xff, 0xfe, 0x00])
        (.enumeration "enum step" (some 2) [("FORTH", 1), ("BACK", -2), ("RETREAT", -2)])
      = .ok "BACK" := by
  have hshown := @enumerator_shown_iff ⟨.big, none⟩ "enum step" 2 (by decide) [("FORTH", 1)]
    [("RETREAT", -2)] "BACK" (-2) (by decide) (by decide) [0x00]
  exact hshown.2 fun hone => absurd hone (by decide)

/-- In a single byte it is not, although the byte is the two's complement of the value. -/
theorem negative_byte_shown_as_number :
    FitsSigned 1 (-1) ∧ twosComplement .little 1 (-1) = [0xff] ∧
    render ⟨.little, none⟩ false (.bytes [0xff]) (.enumeration "enum step" (some 1) [("BACK", -1)])
      = .ok "0xff" :=
  ⟨by decide, by decide, by decide⟩

end MachInspect.Value
