-- SUMMARY: Whether a value can be shown depends on its type and the length of its storage only.
import MachInspect.Value.Render
import Mathlib.Data.List.Forall2

/-!
# Outcomes of showing values

A value is shown, or refused with an error, by its type and the length of its storage: the bytes
decide about the text only. And nothing is read past the end of the storage: the size of a type is
compared with the storage before any part of it is taken, and a member with its structure.

Both are one statement about two runs. The first one takes its parts with `Slices.checked`, which
refuses parts that are not all there, and is never refused one; the second one is the program on
storage of the same shape, and ends in the same way.
-/
namespace MachInspect

/-- Parts that are not all there are refused, and pieces of no bytes. -/
def Slices.checked : Slices Option where
  part := slice?
  chunks size data := if size = 0 then none else some (fullChunks size data)

namespace Value

open Text

/-- The storage of a value whose bytes are known, or known to be zeros. -/
def Storage.of (zero : Bool) (data : Bytes) : Storage :=
  if zero then .zeros data.length else .bytes data

/-! ## Two runs -/

section Runs

variable {α β : Type}

/-- The same error, or results that are related. -/
inductive Alike (R : α → α → Prop) : Except Error α → Except Error α → Prop
  | ok {a b : α} (h : R a b) : Alike R (.ok a) (.ok b)
  | error (e : Error) : Alike R (.error e) (.error e)

/-- The first run is refused no part, and ends like the second. -/
def Matches (R : α → α → Prop) (first : ExceptT Error Option α) (second : ExceptT Error Id α) :
    Prop :=
  ∃ outcome, first.run = some outcome ∧ Alike R outcome (Id.run second.run)

variable {R : α → α → Prop} {S : β → β → Prop}

theorem Matches.pure {a b : α} (h : R a b) : Matches R (pure a) (pure b) := ⟨_, rfl, .ok h⟩

theorem Matches.throw (e : Error) : Matches R (throw e) (throw e) := ⟨_, rfl, .error e⟩

/-- What reads no data goes the same way in both runs. -/
theorem Matches.lift_bind {x : Except Error α} {f : α → ExceptT Error Option β}
    {g : α → ExceptT Error Id β} (h : ∀ a, x = .ok a → Matches S (f a) (g a)) :
    Matches S (liftM x >>= f) (liftM x >>= g) := by
  cases x with
  | error e => exact .throw e
  | ok a => exact h a rfl

theorem Matches.bind {x : ExceptT Error Option α} {y : ExceptT Error Id α}
    {f : α → ExceptT Error Option β} {g : α → ExceptT Error Id β} (h : Matches R x y)
    (hf : ∀ a b, R a b → Matches S (f a) (g b)) : Matches S (x >>= f) (y >>= g) := by
  obtain ⟨outcome, hx, halike⟩ := h
  cases y with
  | error e =>
    cases halike
    exact ⟨.error e, by rw [ExceptT.run_bind, hx]; rfl, .error e⟩
  | ok b =>
    cases halike with
    | @ok a _ hab =>
      obtain ⟨outcome, hfa, halike⟩ := hf a b hab
      exact ⟨outcome, by rw [ExceptT.run_bind, hx]; exact hfa, halike⟩

theorem Matches.ite {p : Prop} [Decidable p] {x x' : ExceptT Error Option α}
    {y y' : ExceptT Error Id α} (h : p → Matches R x y) (h' : ¬ p → Matches R x' y') :
    Matches R (if p then x else x') (if p then y else y') := by
  by_cases hp : p
  · simpa only [if_pos hp] using h hp
  · simpa only [if_neg hp] using h' hp

/-- A list is gone through in step, until the first error. -/
theorem Matches.mapM {as bs : List α} {f : α → ExceptT Error Option β} {g : α → ExceptT Error Id β}
    (h : List.Forall₂ R as bs) (hf : ∀ a b, R a b → Matches S (f a) (g b)) :
    Matches (List.Forall₂ S) (as.mapM f) (bs.mapM g) := by
  induction h with
  | nil =>
    simp only [List.mapM_nil]
    exact .pure .nil
  | @cons a b as bs hab _ ih =>
    simp only [List.mapM_cons]
    refine .bind (hf a b hab) fun c d hcd => ?_
    exact .bind ih fun cs ds hcds => .pure (.cons hcd hcds)

end Runs

/-! ## Storage of the same shape -/

/-- Equal, if the data of both runs are the `same`. -/
def EqualIf (same : Prop) {α : Type} (a b : α) : Prop := same → a = b

/-- As long as each other, and equal if the data of both runs are the `same`. -/
structure SameLength (same : Prop) (data data' : Bytes) : Prop where
  length_eq : data.length = data'.length
  equalIf : EqualIf same data data'

inductive SameShape (same : Prop) : Storage → Storage → Prop
  | bytes {data data' : Bytes} (h : SameLength same data data') :
    SameShape same (.bytes data) (.bytes data')
  | zeros (length : Nat) : SameShape same (.zeros length) (.zeros length)

section Shapes

variable {same : Prop} {data data' : Bytes}

theorem EqualIf.map {α β : Type} {a b : α} (h : EqualIf same a b) (f : α → β) :
    EqualIf same (f a) (f b) := fun hs => congrArg f (h hs)

theorem EqualIf.list {α : Type} {as bs : List α} (h : List.Forall₂ (EqualIf same) as bs) :
    EqualIf same as bs := fun hs =>
  List.forall₂_eq_eq_eq ▸ h.imp fun _ _ hab => hab hs

theorem SameShape.length_eq {storage storage' : Storage} (h : SameShape same storage storage') :
    storage.length = storage'.length := by
  cases h with
  | bytes h => exact h.length_eq
  | zeros length => rfl

theorem SameLength.part (h : SameLength same data data') (start len : Nat) :
    SameLength same ((data.drop start).take len) ((data'.drop start).take len) where
  length_eq := by simp only [List.length_take, List.length_drop, h.length_eq]
  equalIf := h.equalIf.map fun data => (data.drop start).take len

theorem SameLength.fullChunks (h : SameLength same data data') (size : Nat) :
    List.Forall₂ (SameLength same) (fullChunks size data) (fullChunks size data') := by
  fun_induction MachInspect.fullChunks size data generalizing data' with
  | case1 data hshort =>
    rw [MachInspect.fullChunks, if_pos (by rwa [← h.length_eq])]
    exact .nil
  | case2 data hlong ih =>
    rw [MachInspect.fullChunks.eq_1 size data', if_neg (by rwa [← h.length_eq])]
    have hhead := h.part 0 size
    have htail : SameLength same (data.drop size) (data'.drop size) :=
      ⟨by simp only [List.length_drop, h.length_eq], h.equalIf.map (List.drop size)⟩
    exact .cons hhead (ih htail)

theorem checked_part {start len : Nat} (h : start + len ≤ data.length) :
    Slices.checked.part data start len = some ((data.drop start).take len) :=
  if_pos h

/-- A part that is all there is taken by both runs. -/
theorem SameLength.take_bind {β : Type} {S : β → β → Prop} {f : Bytes → ExceptT Error Option β}
    {g : Bytes → ExceptT Error Id β} {start len : Nat} (h : SameLength same data data')
    (hle : start + len ≤ data.length)
    (hf : ∀ part part', SameLength same part part' → Matches S (f part) (g part')) :
    Matches S (liftM (Slices.checked.part data start len) >>= f)
      (liftM (Slices.within.part data' start len) >>= g) := by
  rw [checked_part hle]
  exact hf _ _ (h.part start len)

theorem SameLength.chunks_bind {β : Type} {S : β → β → Prop}
    {f : List Bytes → ExceptT Error Option β} {g : List Bytes → ExceptT Error Id β} {size : Nat}
    (h : SameLength same data data') (hsize : size ≠ 0)
    (hf : ∀ chunks chunks', List.Forall₂ (SameLength same) chunks chunks' →
      Matches S (f chunks) (g chunks')) :
    Matches S (liftM (Slices.checked.chunks size data) >>= f)
      (liftM (Slices.within.chunks size data') >>= g) := by
  have hchunks : Slices.checked.chunks size data = some (MachInspect.fullChunks size data) :=
    if_neg hsize
  rw [hchunks]
  exact hf _ _ (h.fullChunks size)

end Shapes

/-! ## Numbers -/

section Numbers

variable {same : Prop} {env : Env} {data data' : Bytes} {size : UInt64}

theorem matches_unsigned (h : SameLength same data data') (hle : size.toNat ≤ data.length) :
    Matches (EqualIf same) (unsigned .checked env data size) (unsigned .within env data' size) := by
  refine h.take_bind (by omega) fun part part' hpart => ?_
  simp only [ByteOrder.unsigned?, hpart.length_eq]
  by_cases hwidth : part'.length ∈ [1, 2, 4, 8]
  · simp only [if_pos hwidth]
    exact .pure (hpart.equalIf.map _)
  · simp only [if_neg hwidth]
    exact .throw _

theorem matches_signed (h : SameLength same data data') (hle : size.toNat ≤ data.length) :
    Matches (EqualIf same) (signed .checked env data size) (signed .within env data' size) := by
  refine h.take_bind (by omega) fun part part' hpart => ?_
  simp only [ByteOrder.signed?, ByteOrder.unsigned?, hpart.length_eq]
  by_cases hwidth : part'.length ∈ [1, 2, 4, 8]
  · simp only [if_pos hwidth, Option.map_some]
    exact .pure (hpart.equalIf.map fun part => signExtend (env.order.word part) (8 * part'.length))
  · simp only [if_neg hwidth, Option.map_none]
    exact .throw _

theorem matches_firstByte (h : SameLength same data data') (hle : 1 ≤ data.length) :
    Matches (EqualIf same) (firstByte .checked data) (firstByte .within data') :=
  h.take_bind (by omega) fun _ _ hpart => .pure (hpart.equalIf.map fun part => part.headD 0)

theorem longDouble_checked (layout : LongDoubleLayout) (order : ByteOrder) (data : Bytes) :
    LongDouble.textBy .checked layout order data = some (LongDouble.text layout order data) := by
  unfold LongDouble.text LongDouble.textBy
  by_cases hlength : data.length = 16
  · rw [if_pos hlength, if_pos hlength]
    have hhead : Slices.checked.part data 0 8 = some (data.take 8) := checked_part (by omega)
    cases layout with
    | x87 =>
      simp only [hhead, checked_part (show 8 + 2 ≤ data.length by omega)]
      rfl
    | binary64 =>
      simp only [hhead]
      rfl
    | doubleDouble =>
      simp only [hhead, checked_part (show 8 + 8 ≤ data.length by omega)]
      rfl
  · rw [if_neg hlength, if_neg hlength]
    rfl

theorem matches_floating (h : SameLength same data data') :
    Matches (EqualIf same) (floating .checked env data) (floating .within env data') := by
  unfold floating
  rw [h.length_eq]
  split
  · exact .pure (h.equalIf.map _)
  split
  · exact .pure (h.equalIf.map _)
  split
  · cases env.longDouble with
    | some layout =>
      simp only [longDouble_checked]
      exact .pure (h.equalIf.map (LongDouble.text layout env.order))
    | none => exact .throw _
  · exact .throw _

/-- A number is read from no more bytes than its type has. -/
theorem matches_scalarText {storage storage' : Storage} (h : SameShape same storage storage')
    (hle : size.toNat ≤ storage.length) (name : String) (kind : Scalar) :
    Matches (EqualIf same) (scalarText .checked env name kind size storage)
      (scalarText .within env name kind size storage') := by
  cases h with
  | @bytes data data' h =>
    have hle : size.toNat ≤ data.length := hle
    cases kind with
    | pointer | uint =>
      exact .bind (matches_unsigned h hle) fun a b hab => .pure (hab.map fun v => hex v.toNat)
    | int =>
      exact .bind (matches_signed h hle) fun a b hab => .pure (hab.map fun v => signedHex v.toInt)
    | float => exact h.take_bind (by omega) fun part part' hpart => matches_floating hpart
    | complex =>
      refine .ite (fun _ => .throw _) fun _ => ?_
      refine h.take_bind (by omega) fun re re' hre => ?_
      refine .bind (matches_floating hre) fun a b hab => ?_
      refine h.take_bind (by omega) fun im im' him => ?_
      refine .bind (matches_floating him) fun c d hcd => ?_
      exact .pure fun hs => by rw [hab hs, hcd hs]
    | bool | char | uchar =>
      refine .ite (fun _ => .throw _) fun hsize => ?_
      have hone : size.toNat = 1 := by simp [not_not.1 hsize]
      exact .bind (matches_firstByte h (by omega)) fun a b hab => .pure (hab.map (byteText _))
  | zeros length =>
    cases kind with
    | pointer | uint | int | float | complex => exact .pure fun _ => rfl
    | bool | char | uchar => exact .ite (fun _ => .throw _) fun _ => .pure fun _ => rfl

theorem matches_enumNumber {storage storage' : Storage} (h : SameShape same storage storage')
    (hle : size.toNat ≤ storage.length) :
    Matches (EqualIf same) (enumNumber .checked env size storage)
      (enumNumber .within env size storage') := by
  cases h with
  | @bytes data data' h =>
    have hle : size.toNat ≤ data.length := hle
    refine .ite (fun hsize => ?_) fun _ => matches_signed h hle
    have hone : size.toNat = 1 := by simp [hsize]
    exact .bind (matches_firstByte h (by omega)) fun a b hab =>
      .pure (hab.map fun byte => byte.toUInt64.toInt64)
  | zeros length => exact .pure fun _ => rfl

end Numbers

/-! ## Types -/

section Types

variable {same : Prop} {env : Env}

theorem le_of_sized {type : ValueType} {length : Nat} {size : UInt64}
    (h : sized type length = .ok size) : size.toNat ≤ length := by
  unfold sized at h
  split at h
  · cases h
  · split at h
    · cases h
    next hlong =>
      cases h
      omega

theorem le_of_memberRange {size : UInt64} {m : Member ValueType} {start width : Nat}
    (h : memberRange size m = .ok (start, width)) : start + width ≤ size.toNat := by
  unfold memberRange at h
  split at h
  · cases h
  · split at h
    · cases h
    · split at h
      · cases h
      next hlong =>
        cases h
        omega

mutual

/-- Showing a value is refused no part, and ends in the same way on storage of the same shape. -/
theorem matches_text {storage storage' : Storage} (h : SameShape same storage storage') :
    ∀ type : ValueType,
      Matches (EqualIf same) (text .checked env storage type) (text .within env storage' type)
  | .wrapper name size kind inner => by
    rw [text, text]
    exact matches_text h inner
  | .scalar name size kind => by
    rw [text, text, ← h.length_eq]
    refine .lift_bind fun size hsize => ?_
    exact matches_scalarText h (le_of_sized hsize) name kind
  | .enumeration name size values => by
    rw [text, text, ← h.length_eq]
    refine .lift_bind fun size hsize => ?_
    exact .bind (matches_enumNumber h (le_of_sized hsize)) fun a b hab => .pure (hab.map _)
  | .array name size element count => by
    rw [text, text, ← h.length_eq]
    refine .lift_bind fun _ _ => ?_
    cases element.size with
    | none => exact .throw _
    | some width =>
      cases h with
      | zeros length => exact .pure fun _ => rfl
      | bytes h =>
        refine .ite (fun _ => .pure fun _ => rfl) fun hwidth => ?_
        have hwidth : width.toNat ≠ 0 := fun hzero => hwidth (UInt64.toNat_inj.1 hzero)
        refine h.chunks_bind hwidth fun chunks chunks' hchunks => ?_
        have htaken := List.forall₂_take count.toNat hchunks
        have htexts := Matches.mapM htaken fun _ _ hchunk => matches_text (.bytes hchunk) element
        refine htexts.bind fun parts parts' hparts => ?_
        exact .pure ((EqualIf.list hparts).map fun parts => braced parts ", ")
  | .record name size members => by
    rw [text, text, ← h.length_eq]
    refine .lift_bind fun size hsize => ?_
    cases h with
    | zeros length => exact .pure fun _ => rfl
    | bytes h =>
      refine .bind (matches_memberTexts h (le_of_sized hsize) members) fun a b hab => ?_
      exact .pure (hab.map fun parts => braced parts "; ")

theorem matches_memberTexts {data data' : Bytes} {size : UInt64} (h : SameLength same data data')
    (hle : size.toNat ≤ data.length) :
    ∀ members : List (Member ValueType),
      Matches (EqualIf same) (memberTexts .checked env size data members)
        (memberTexts .within env size data' members)
  | [] => .pure fun _ => rfl
  | ⟨name, offset, bitSize, type⟩ :: rest => by
    rw [memberTexts, memberTexts]
    refine .lift_bind fun (start, width) hrange => ?_
    have hfits := le_of_memberRange hrange
    refine h.take_bind (by omega) fun part part' hpart => ?_
    refine .bind (matches_text (.bytes hpart) type) fun a b hab => ?_
    refine .bind (matches_memberTexts h hle rest) fun c d hcd => ?_
    exact .pure fun hs => by rw [hab hs, hcd hs]

end

theorem sameShape_of {data data' : Bytes} (h : SameLength same data data') (zero : Bool) :
    SameShape same (.of zero data) (.of zero data') := by
  cases zero with
  | false => exact .bytes h
  | true =>
    have hlength : Storage.of true data' = .zeros data.length :=
      congrArg Storage.zeros h.length_eq.symm
    rw [hlength]
    exact .zeros data.length

end Types

section Outcomes

variable {same : Prop} {α : Type} {x y : Except Error α}

theorem Alike.eq (h : Alike (EqualIf True) x y) : x = y := by
  cases h with
  | ok h => rw [h trivial]
  | error e => rfl

theorem Alike.cases {R : α → α → Prop} (h : Alike R x y) :
    (∃ a b, x = .ok a ∧ y = .ok b) ∨ ∃ e, x = .error e ∧ y = .error e := by
  cases h with
  | ok h => exact .inl ⟨_, _, rfl, rfl⟩
  | error e => exact .inr ⟨e, rfl, rfl⟩

/-- Labels are put around the text, and have no part in the outcome. -/
theorem exists_outcome (env : Env) (type : ValueType) {storage storage' : Storage}
    (h : SameShape same storage storage') (label label' : Bool)
    (hlabel : EqualIf same label label') :
    ∃ outcome, (renderBy .checked env label storage type).run = some outcome ∧
      Alike (EqualIf same) outcome (render env label' storage' type) :=
  Matches.bind (matches_text h type) fun a b hab => .pure fun hs => by rw [hab hs, hlabel hs]

/-- With checked parts, the same value is shown. -/
theorem renderBy_checked (env : Env) (type : ValueType) (zero label : Bool) (data : Bytes) :
    (renderBy .checked env label (.of zero data) type).run =
      some (render env label (.of zero data) type) := by
  have hshape : SameShape True (.of zero data) (.of zero data) :=
    sameShape_of ⟨rfl, fun _ => rfl⟩ zero
  obtain ⟨outcome, hrun, halike⟩ := exists_outcome env type hshape label label fun _ => rfl
  rw [hrun, halike.eq]

end Outcomes

/-- Whether a value can be shown does not depend on its data: with any two data of the same length,
and labelled or not, either both are shown, or both are refused with the same error. And all parts
that are taken of the data are inside of it: with checked parts, the outcome is the same. -/
theorem outcome_independent_of_data (env : Env) (type : ValueType) (zero label label' : Bool)
    {data data' : Bytes} (h : data.length = data'.length) :
    ((∃ shown shown', render env label (.of zero data) type = .ok shown ∧
        render env label' (.of zero data') type = .ok shown') ∨
      ∃ e, render env label (.of zero data) type = .error e ∧
        render env label' (.of zero data') type = .error e) ∧
    (renderBy .checked env label (.of zero data) type).run =
      some (render env label (.of zero data) type) := by
  have hshape : SameShape False (.of zero data) (.of zero data') := sameShape_of ⟨h, nofun⟩ zero
  obtain ⟨outcome, hrun, halike⟩ := exists_outcome env type hshape label label' nofun
  have hchecked := renderBy_checked env type zero label data
  have houtcome : render env label (.of zero data) type = outcome :=
    Option.some.inj (hchecked.symm.trans hrun)
  rw [← houtcome] at halike
  exact ⟨halike.cases, hchecked⟩

/-- A structure whose last member ends past the end of the address space. -/
def strayMember : ValueType :=
  .record "struct stray" (some 4)
    [⟨"near", 2, none, .scalar "short" (some 2) .int⟩,
     ⟨"far", 0xffffffffffffffff, none, .array "[2]char" (some 2) (.scalar "char" (some 1) .char) 2⟩]

theorem stray_outcome_independent_of_data :
    render ⟨.big, none⟩ true (.of false [0, 1, 2, 3]) strayMember =
      .error (.truncated .structField 0xffffffffffffffff 2 0) ∧
    ((∃ shown shown', render ⟨.big, none⟩ true (.of false [0, 1, 2, 3]) strayMember = .ok shown ∧
        render ⟨.big, none⟩ false (.of false [9, 9, 9, 9]) strayMember = .ok shown') ∨
      ∃ e, render ⟨.big, none⟩ true (.of false [0, 1, 2, 3]) strayMember = .error e ∧
        render ⟨.big, none⟩ false (.of false [9, 9, 9, 9]) strayMember = .error e) ∧
    (renderBy .checked ⟨.big, none⟩ true (.of false [0, 1, 2, 3]) strayMember).run =
      some (render ⟨.big, none⟩ true (.of false [0, 1, 2, 3]) strayMember) :=
  ⟨rfl, outcome_independent_of_data ⟨.big, none⟩ strayMember false true false rfl⟩

end Value

end MachInspect
