-- SUMMARY: A value is shown from the bytes of its own type, whatever follows them.
import MachInspect.Proofs.Value.Outcomes

/-!
# The bytes of a value

The storage of a variable is often longer than its type, by padding or by what lies behind it. A
number, an enumeration and a structure take their parts from inside of their own size. An array
takes pieces of its storage until it has enough of them, and a type that stands for another one
hands its storage on, so these two stay inside of their size if it agrees with what they are made
of.
-/
namespace MachInspect.Value

namespace ValueType

/-- Something is so at every node of a type. -/
inductive Everywhere (p : ValueType → Prop) : ValueType → Prop
  | scalar {name : String} {size : Option UInt64} {kind : Scalar}
    (hnode : p (.scalar name size kind)) : Everywhere p (.scalar name size kind)
  | enumeration {name : String} {size : Option UInt64} {values : List (String × Int64)}
    (hnode : p (.enumeration name size values)) : Everywhere p (.enumeration name size values)
  | wrapper {name : String} {size : Option UInt64} {kind : Wrapper} {inner : ValueType}
    (hnode : p (.wrapper name size kind inner)) (hinner : Everywhere p inner) :
    Everywhere p (.wrapper name size kind inner)
  | array {name : String} {size : Option UInt64} {element : ValueType} {count : UInt64}
    (hnode : p (.array name size element count)) (helement : Everywhere p element) :
    Everywhere p (.array name size element count)
  | record {name : String} {size : Option UInt64} {members : List (Member ValueType)}
    (hnode : p (.record name size members)) (hmembers : ∀ m ∈ members, Everywhere p m.type) :
    Everywhere p (.record name size members)

/-- An array has the bytes of its elements, no more and no less, and a type that stands for another
one is as large as that. -/
def ExactSize : ValueType → Prop
  | .wrapper _ size _ inner => size = inner.size
  | .array _ size element count =>
    size.map UInt64.toNat = element.size.map fun width => count.toNat * width.toNat
  | _ => True

/-- Sizes agree at every node of a type. -/
def WellSized (type : ValueType) : Prop := type.Everywhere ExactSize

end ValueType

/-- Storage that ends after `length` bytes. -/
def Storage.cut (length : Nat) : Storage → Storage
  | .bytes data => .bytes (data.take length)
  | .zeros available => .zeros (min length available)

theorem Storage.length_cut {length : Nat} {storage : Storage} (h : length ≤ storage.length) :
    (storage.cut length).length = length := by
  cases storage with
  | bytes data => exact List.length_take_of_le h
  | zeros available => exact Nat.min_eq_left h

theorem Storage.of_take (zero : Bool) (data : Bytes) (length : Nat) :
    Storage.of zero (data.take length) = (Storage.of zero data).cut length := by
  cases zero with
  | false => rfl
  | true => exact congrArg Storage.zeros List.length_take

/-! ## Parts -/

section Parts

variable {env : Env} {length : Nat} {size : UInt64}

theorem lift_ok_bind {α β : Type} (a : α) (f : α → ExceptT Error Id β) :
    (liftM (Except.ok a : Except Error α) >>= f) = f a := rfl

theorem part_take {start len : Nat} (h : start + len ≤ length) (data : Bytes) :
    Slices.within.part (data.take length) start len = Slices.within.part data start len := by
  change ((data.take length).drop start).take len = (data.drop start).take len
  rw [List.drop_take, List.take_take, Nat.min_eq_left (by omega)]

/-- A whole number of pieces at the front of some bytes are the first pieces of all of them. -/
theorem fullChunks_take {width : Nat} (hwidth : width ≠ 0) (count : Nat) (data : Bytes) :
    fullChunks width (data.take (count * width)) = (fullChunks width data).take count := by
  induction count generalizing data with
  | zero =>
    rw [Nat.zero_mul, List.take_zero, List.take_zero, fullChunks, if_pos]
    exact .inr (Nat.pos_of_ne_zero hwidth)
  | succ count ih =>
    rw [fullChunks, fullChunks.eq_1 width data, List.length_take, Nat.succ_mul]
    by_cases hshort : data.length < width
    · rw [if_pos (.inr (by omega)), if_pos (.inr hshort), List.take_nil]
    · have hrest : (data.take (count * width + width)).drop width =
          (data.drop width).take (count * width) := by
        rw [List.drop_take, Nat.add_sub_cancel]
      rw [if_neg (by omega), if_neg (by omega), hrest, ih, List.take_take,
        Nat.min_eq_left (by omega), List.take_succ_cons]

theorem unsigned_take (h : size.toNat ≤ length) (data : Bytes) :
    unsigned .within env (data.take length) size = unsigned .within env data size := by
  rw [unsigned, unsigned, part_take (by omega)]

theorem signed_take (h : size.toNat ≤ length) (data : Bytes) :
    signed .within env (data.take length) size = signed .within env data size := by
  rw [signed, signed, part_take (by omega)]

theorem firstByte_take (h : 1 ≤ length) (data : Bytes) :
    firstByte .within (data.take length) = firstByte .within data := by
  rw [firstByte, firstByte, part_take (by omega)]

/-- A number is read from the bytes of its size. -/
theorem scalarText_cut (h : size.toNat ≤ length) (name : String) (kind : Scalar)
    (storage : Storage) :
    scalarText .within env name kind size (storage.cut length) =
      scalarText .within env name kind size storage := by
  cases storage with
  | bytes data =>
    cases kind with
    | pointer | uint => simp only [Storage.cut, scalarText, unsigned_take h]
    | int => simp only [Storage.cut, scalarText, signed_take h]
    | float =>
      have hall : 0 + size.toNat ≤ length := by omega
      simp only [Storage.cut, scalarText, part_take hall]
    | complex =>
      have hre : 0 + size.toNat / 2 ≤ length := by omega
      have him : size.toNat / 2 + size.toNat / 2 ≤ length := by omega
      simp only [Storage.cut, scalarText, part_take hre, part_take him]
    | bool | char | uchar =>
      by_cases hsize : size = 1
      · have hone : 1 ≤ length := by simpa [hsize] using h
        simp only [Storage.cut, scalarText, firstByte_take hone]
      · simp only [Storage.cut, scalarText, hsize, ne_eq, not_false_eq_true, if_true]
  | zeros available => cases kind <;> rfl

theorem enumNumber_cut (h : size.toNat ≤ length) (storage : Storage) :
    enumNumber .within env size (storage.cut length) = enumNumber .within env size storage := by
  cases storage with
  | bytes data =>
    by_cases hsize : size = 1
    · have hone : 1 ≤ length := by simpa [hsize] using h
      simp only [Storage.cut, enumNumber, if_pos hsize, firstByte_take hone]
    · simp only [Storage.cut, enumNumber, if_neg hsize, signed_take h]
  | zeros available => rfl

/-- Members lie inside of their structure. -/
theorem memberTexts_take (data : Bytes) (members : List (Member ValueType)) :
    memberTexts .within env size (data.take size.toNat) members =
      memberTexts .within env size data members := by
  induction members with
  | nil => rw [memberTexts, memberTexts]
  | cons m rest ih =>
    obtain ⟨name, offset, bitSize, type⟩ := m
    rw [memberTexts, memberTexts, ih]
    cases hrange : memberRange size ⟨name, offset, bitSize, type⟩ with
    | error e => rfl
    | ok range =>
      obtain ⟨start, width⟩ := range
      have hpart := part_take (le_of_memberRange hrange) data
      simp only [lift_ok_bind, hpart]

end Parts

/-! ## Types -/

theorem sized_of_le {type : ValueType} {size : UInt64} {length : Nat}
    (hsize : type.size = some size) (h : size.toNat ≤ length) : sized type length = .ok size := by
  rw [sized, hsize]
  exact if_neg (by omega)

/-- What an array of elements that have a size shows. -/
theorem text_array {env : Env} {name : String} {size? : Option UInt64} {element : ValueType}
    {count size width : UInt64} {data : Bytes}
    (hsize : (ValueType.array name size? element count).size = some size)
    (h : size.toNat ≤ (Storage.bytes data).length) (hwidth : element.size = some width) :
    text .within env (.bytes data) (.array name size? element count) =
      if width = 0 then pure (braced [] ", ")
      else (fun parts => braced parts ", ") <$>
        ((fullChunks width.toNat data).take count.toNat).mapM fun chunk =>
          text .within env (.bytes chunk) element := by
  rw [text, sized_of_le hsize h, lift_ok_bind, hwidth, map_eq_pure_bind]
  rfl

/-- Storage of a value may be cut off where its type ends. -/
theorem text_cut {env : Env} {type : ValueType} (htype : type.WellSized) {size : UInt64}
    {storage : Storage} (hsize : type.size = some size) (h : size.toNat ≤ storage.length) :
    text .within env (storage.cut size.toNat) type = text .within env storage type := by
  have hcut : size.toNat ≤ (storage.cut size.toNat).length :=
    Nat.le_of_eq (Storage.length_cut h).symm
  -- The induction is for the types that hand their storage on; all others cut it up themselves.
  induction htype with
  | @scalar name _ kind =>
    rw [text, text, sized_of_le hsize hcut, sized_of_le hsize h, lift_ok_bind, lift_ok_bind]
    exact scalarText_cut (Nat.le_refl _) name kind storage
  | enumeration =>
    rw [text, text, sized_of_le hsize hcut, sized_of_le hsize h, lift_ok_bind, lift_ok_bind,
      enumNumber_cut (Nat.le_refl _)]
  | @wrapper _ size' _ inner heq _ ih =>
    have heq : size' = inner.size := heq
    rw [text, text]
    exact ih (heq ▸ hsize)
  | @array _ size' element count heq _ _ =>
    have hsome : size' = some size := hsize
    cases hwidth : element.size with
    | none => simp [ValueType.ExactSize, hsome, hwidth] at heq
    | some width =>
      cases storage with
      | zeros available =>
        rw [text, text, sized_of_le hsize hcut, sized_of_le hsize h, lift_ok_bind, lift_ok_bind]
        rfl
      | bytes data =>
        have hall : size.toNat = count.toNat * width.toNat := by
          simpa [ValueType.ExactSize, hsome, hwidth] using heq
        rw [Storage.cut, text_array hsize hcut hwidth, text_array hsize h hwidth]
        by_cases hzero : width = 0
        · rw [if_pos hzero, if_pos hzero]
        · have hne : width.toNat ≠ 0 := fun h => hzero (UInt64.toNat_inj.1 h)
          rw [if_neg hzero, if_neg hzero, hall, fullChunks_take hne, List.take_take, Nat.min_self]
  | record _ _ =>
    rw [text, text, sized_of_le hsize hcut, sized_of_le hsize h, lift_ok_bind, lift_ok_bind]
    cases storage with
    | zeros available => rfl
    | bytes data => simp only [Storage.cut, memberTexts_take]

/-- A value is shown from its own bytes: in a type with sizes that agree, what follows the bytes of
the type changes neither the text nor the error. -/
theorem render_of_own_bytes (env : Env) (zero label : Bool) {type : ValueType}
    (htype : type.WellSized) {size : UInt64} (hsize : type.size = some size) {data : Bytes}
    (hdata : size.toNat ≤ data.length) :
    render env label (.of zero data) type =
      render env label (.of zero (data.take size.toNat)) type := by
  have hlength : (Storage.of zero data).length = data.length := by cases zero <;> rfl
  rw [render, render, renderBy, renderBy, Storage.of_take,
    text_cut htype hsize (hlength ▸ hdata)]

/-- Two cells of two bytes each, behind a name of their own. -/
def namedCells : ValueType :=
  .wrapper "cells_t" (some 4) .alias
    (.array "[2]struct cell" (some 4)
      (.record "struct cell" (some 2)
        [⟨"c", 0, none, .scalar "char" (some 1) .char⟩,
         ⟨"b", 1, none, .scalar "bool" (some 1) .bool⟩]) 2)

theorem wellSized_namedCells : namedCells.WellSized := by
  refine .wrapper rfl (.array rfl (.record trivial fun m hm => ?_))
  simp only [List.mem_cons, List.not_mem_nil, or_false] at hm
  obtain rfl | rfl := hm
  · exact .scalar trivial
  · exact .scalar trivial

/-- A third cell behind the two is not shown. -/
theorem padded_render_of_own_bytes :
    render ⟨.little, none⟩ true (.of false [0x61, 0, 0x62, 1, 0x63, 0]) namedCells =
      render ⟨.little, none⟩ true (.of false [0x61, 0, 0x62, 1]) namedCells ∧
    render ⟨.little, none⟩ true (.of false [0x61, 0, 0x62, 1]) namedCells =
      .ok ("cells_t\x7b\x7b.c = char('a'); .b = bool(0)\x7d, " ++
        "\x7b.c = char('b'); .b = bool(1)\x7d\x7d") :=
  ⟨render_of_own_bytes ⟨.little, none⟩ false true wellSized_namedCells rfl (by decide),
    by decide +kernel⟩

/-- An array that claims fewer bytes than its elements have goes on into the bytes behind it. -/
example : render ⟨.little, none⟩ false (.of false [0x61, 0x62])
      (.array "[2]char" (some 1) (.scalar "char" (some 1) .char) 2) = .ok "\x7b'a', 'b'\x7d" := by
  decide +kernel

end MachInspect.Value
