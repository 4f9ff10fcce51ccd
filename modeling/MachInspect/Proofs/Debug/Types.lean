-- SUMMARY: Types of variables are finite unfoldings of the references between entries.
import MachInspect.Debug.VariableType
import MachInspect.Proofs.Execution
import MachInspect.Proofs.Value.OwnBytes
import Mathlib.Data.List.Chain
import Mathlib.Data.List.Forall2
import Mathlib.Logic.Relation

/-!
# Types of variables

Entries refer to each other in any way: to nothing, to entries of other units, and in circles. The
type of a variable is what the references unfold to, entry by entry (`Unfolds`), and a count of the
references that lead from the variable to an entry ends the unfolding. So a type that is built has
no part behind more than `maxReferences` references, and a variable whose type contains itself has
none.
-/
namespace MachInspect

open Value

/-! ## Types that are built -/

namespace Value.ValueType

/-- A pointer has a size, a type that stands for another one is as large as that, and an array as
large as its elements together, up to the largest size that there is. -/
def Consistent : ValueType → Prop
  | .scalar _ size kind => kind = .pointer → size.isSome
  | .wrapper _ size _ inner => size = inner.size
  | .array _ size element count =>
    size.map UInt64.toNat =
      element.size.map fun width => min (width.toNat * count.toNat) (2 ^ 64 - 1)
  | _ => True

/-- `type` is an array of arrays of `element`, with the first of the counts outermost. -/
inductive Nested (element : ValueType) : List UInt64 → ValueType → Prop
  | element : Nested element [] element
  | array {count : UInt64} {counts : List UInt64} {inner : ValueType} {name : String}
    {size : Option UInt64} (hinner : Nested element counts inner)
    (hnode : Consistent (.array name size inner count)) :
    Nested element (count :: counts) (.array name size inner count)

theorem Nested.consistent {element type : ValueType} {counts : List UInt64}
    (h : Nested element counts type) (helement : element.Everywhere Consistent) :
    type.Everywhere Consistent := by
  induction h with
  | element => exact helement
  | array _ hnode ih => exact .array hnode ih

end Value.ValueType

namespace Debug

/-! ## Reading entries -/

theorem during_eq_ok {α : Type} {step : DebugStep} {x : Except DebugFault α} {a : α} :
    during step x = .ok a ↔ x = .ok a := by
  cases x with
  | ok b => simp [during]
  | error fault => simp [during]

theorem mapM_eq_ok {α β : Type} {f : α → Except Error β} {as : List α} {bs : List β}
    (h : as.mapM f = .ok bs) : List.Forall₂ (fun a b => f a = .ok b) as bs := by
  induction as generalizing bs with
  | nil =>
    rw [List.mapM_nil] at h
    cases h
    exact .nil
  | cons a as ih =>
    rw [List.mapM_cons] at h
    obtain ⟨b, hb, h⟩ := exists_ok_of_bind_ok h
    obtain ⟨bs, hbs, h⟩ := exists_ok_of_bind_ok h
    cases h
    exact .cons hb (ih hbs)

theorem exists_mem_of_forall₂ {α β : Type} {R : α → β → Prop} {as : List α} {bs : List β}
    (h : List.Forall₂ R as bs) {a : α} (ha : a ∈ as) : ∃ b ∈ bs, R a b := by
  induction h with
  | nil => cases ha
  | @cons a' b' as bs hab _ ih =>
    obtain rfl | ha := List.mem_cons.1 ha
    · exact ⟨b', List.mem_cons_self, hab⟩
    · obtain ⟨b, hb, hab⟩ := ih ha
      exact ⟨b, List.mem_cons_of_mem _ hb, hab⟩

namespace Info

/-- The entry at a place. -/
def Place.Holds (place : Place) (e : Entry) : Prop := place.home.entryAt place.offset = .ok e

/-- The children of an entry that have a tag. -/
def childrenTagged (u : CompilationUnit) (e : Entry) (tag : Nat) : List Entry :=
  (u.children e).entries.filter fun c => c.tag == tag

/-- The reference to a type that an entry has. -/
def TypedBy (u : CompilationUnit) (e : Entry) (value : AttributeValue) : Prop :=
  u.attribute? e Attribute.type = .ok (some value)

/-- An entry that stands at a place is also the root of what starts there. -/
theorem Place.Holds.root {place : Place} {e : Entry} (h : place.Holds e) :
    ∃ start, place.home.entriesFrom place.offset = .ok start ∧ place.home.rootAt start = .ok e := by
  obtain ⟨start, hstart, h⟩ := exists_ok_of_bind_ok h
  obtain ⟨found, hfound, h⟩ := exists_ok_of_bind_ok h
  cases found with
  | none => cases h
  | some e' =>
    cases h
    refine ⟨start, hstart, ?_⟩
    rw [CompilationUnit.rootAt, hfound]
    rfl

theorem Place.Holds.childrenAt_eq {α : Type} {place : Place} {e : Entry} (h : place.Holds e)
    (tree root iterate : DebugStep) (tag : Nat) (read : Entry → Except Error α) :
    childrenAt place tree root iterate tag read = do
      let found ← (childrenTagged place.home e tag).mapM read
      match (place.home.children e).fault with
      | some fault => .error (.debug iterate fault)
      | none => return found := by
  obtain ⟨start, hstart, hroot⟩ := h.root
  rw [childrenAt, hstart, during_eq_ok.2 rfl]
  change (during root (place.home.rootAt start) >>= _) = _
  rw [hroot, during_eq_ok.2 rfl]
  rfl

theorem Place.Holds.of_childrenAt {α : Type} {place : Place} {e : Entry} (h : place.Holds e)
    {tree root iterate : DebugStep} {tag : Nat} {read : Entry → Except Error α} {found : List α}
    (hfound : childrenAt place tree root iterate tag read = .ok found) :
    List.Forall₂ (fun c a => read c = .ok a) (childrenTagged place.home e tag) found := by
  rw [h.childrenAt_eq] at hfound
  obtain ⟨read, hread, hfound⟩ := exists_ok_of_bind_ok hfound
  split at hfound
  · cases hfound
  · cases hfound
    exact mapM_eq_ok hread

/-! ## References -/

/-- Entries that make their type from the one that they refer to. -/
def derivedTags : List Nat :=
  [Tag.array, Tag.typedef, Tag.const, Tag.volatile, Tag.restrict, Tag.atomic]

/-- Entries that make their type from those of their members. -/
def recordTags : List Nat := [Tag.structType, Tag.classType, Tag.unionType]

/-- Entries that name what they refer to, and make nothing from it. -/
def pointerTags : List Nat := [Tag.pointer, Tag.reference, Tag.rvalueReference]

/-- The type of the entry at a place is made from what a reference means. -/
inductive Refers (place : Place) (value : AttributeValue) : Prop
  | own {e : Entry} (hentry : place.Holds e) (htag : e.tag ∈ derivedTags)
    (hvalue : TypedBy place.home e value)
  | member {e m : Entry} (hentry : place.Holds e) (htag : e.tag ∈ recordTags)
    (hmember : m ∈ childrenTagged place.home e Tag.member) (hvalue : TypedBy place.home m value)

/-- The type at one place is made from the type at the other. -/
def Follows (info : Info) (place next : Place) : Prop :=
  ∃ value, Refers place value ∧ info.locate place.home value = some next

/-- `type` is the type of the entry `e`, where `means` says what references mean, and names of
pointees look through at most `remaining` references. -/
inductive Describes (info : Info) (remaining : Nat)
    (means : CompilationUnit → AttributeValue → ValueType → Prop) (place : Place) (e : Entry) :
    ValueType → Prop
  | base {name : String} {size : Option UInt64} {kind : Scalar} (htag : e.tag = Tag.base)
    (hsize : number? place.home e Attribute.byteSize = .ok size)
    (hkind : baseKind place.home e = .ok kind) :
    Describes info remaining means place e (.scalar name size kind)
  | pointer {pointee : String} {size : UInt64} (htag : e.tag ∈ pointerTags)
    (hname : info.pointeeName remaining place.home e = .ok pointee) :
    Describes info remaining means place e (.scalar ("*" ++ pointee) (some size) .pointer)
  | record {name : String} {size : Option UInt64} {members : List (Member ValueType)}
    (htag : e.tag ∈ recordTags) (hsize : number? place.home e Attribute.byteSize = .ok size)
    (hmembers : List.Forall₂
      (fun c m => ∃ value, TypedBy place.home c value ∧ means place.home value m.type)
      (childrenTagged place.home e Tag.member) members) :
    Describes info remaining means place e (.record name size members)
  | array {value : AttributeValue} {element type : ValueType} {counts : List UInt64}
    (htag : e.tag = Tag.array) (hvalue : TypedBy place.home e value)
    (hmeans : means place.home value element)
    (hcounts : dimensions place = .ok (counts.map some))
    (hnested : ValueType.Nested element counts type) :
    Describes info remaining means place e type
  | enumeration {name : String} {size : Option UInt64} {values : List (String × Int64)}
    (htag : e.tag = Tag.enumeration)
    (hsize : number? place.home e Attribute.byteSize = .ok size)
    (hvalues : info.enumerators place = .ok values) :
    Describes info remaining means place e (.enumeration name size values)
  | typedef {name : String} {value : AttributeValue} {inner : ValueType}
    (htag : e.tag = Tag.typedef) (hvalue : TypedBy place.home e value)
    (hmeans : means place.home value inner) :
    Describes info remaining means place e (.wrapper name inner.size .alias inner)
  | qualified {qualifier : String} {value : AttributeValue} {inner : ValueType}
    (htag : qualifier? e.tag = some qualifier) (hvalue : TypedBy place.home e value)
    (hmeans : means place.home value inner) :
    Describes info remaining means place e
      (.wrapper (qualifier ++ " " ++ inner.name) inner.size .qualified inner)

/-- `type` is what a reference from `u` unfolds to, with at most `remaining` references inside each
other on the way to any part of it. -/
def Unfolds (info : Info) : (remaining : Nat) → CompilationUnit → AttributeValue → ValueType → Prop
  | 0, _, _, _ => False
  | remaining + 1, u, value, type =>
    ∃ place e, info.locate u value = some place ∧ place.Holds e ∧
      Describes info remaining (info.Unfolds remaining) place e type

/-! ## One entry -/

section Entries

variable {info : Info} {remaining : Nat} {place : Place} {e : Entry} {type : ValueType}
  {resolve : CompilationUnit → AttributeValue → Except Error ValueType}
  {means means' : CompilationUnit → AttributeValue → ValueType → Prop}

theorem of_innerType {u : CompilationUnit} {inner? : Option ValueType}
    (h : innerType resolve u e = .ok inner?) {inner : ValueType} (hinner : inner? = some inner) :
    ∃ value, TypedBy u e value ∧ resolve u value = .ok inner := by
  obtain ⟨value?, hvalue, h⟩ := exists_ok_of_bind_ok h
  rw [during_eq_ok] at hvalue
  cases value? with
  | none =>
    cases h
    cases hinner
  | some value =>
    obtain ⟨found, hfound, h⟩ := exists_ok_of_bind_ok h
    cases h
    cases hinner
    exact ⟨value, hvalue, hfound⟩

theorem of_members (hentry : place.Holds e) {members : List (Member ValueType)}
    (h : info.members resolve place = .ok members) :
    List.Forall₂
      (fun c m => ∃ value, TypedBy place.home c value ∧ resolve place.home value = .ok m.type)
      (childrenTagged place.home e Tag.member) members := by
  refine (hentry.of_childrenAt h).imp fun c m hm => ?_
  obtain ⟨name?, -, hm⟩ := exists_ok_of_bind_ok hm
  obtain ⟨inner?, hinner, hm⟩ := exists_ok_of_bind_ok hm
  cases inner? with
  | none => cases hm
  | some inner =>
    obtain ⟨bitSize, -, hm⟩ := exists_ok_of_bind_ok hm
    obtain ⟨offset, -, hm⟩ := exists_ok_of_bind_ok hm
    cases hm
    exact of_innerType hinner rfl

/-- The first dimension is the outermost one. -/
theorem of_arrayOf {element : ValueType} {counts? : List (Option UInt64)}
    (h : arrayOf element counts? = .ok type) :
    ∃ counts, counts? = counts.map some ∧ ValueType.Nested element counts type := by
  induction counts? generalizing type with
  | nil =>
    cases h
    exact ⟨[], rfl, .element⟩
  | cons count? rest ih =>
    obtain ⟨inner, hinner, htype⟩ := exists_ok_of_bind_ok (arrayOf.eq_2 element count? rest ▸ h)
    obtain ⟨counts, rfl, hnested⟩ := ih hinner
    cases count? with
    | none => cases htype
    | some count =>
      cases htype
      refine ⟨count :: counts, rfl, .array hnested ?_⟩
      rw [ValueType.Consistent, Option.map_map]
      refine congrArg (Option.map · inner.size) (funext fun width => ?_)
      exact UInt64.toNat_ofNat_of_lt' (by change min _ _ < 2 ^ 64; omega)

/-- What is built for an entry is the type that the entry describes. -/
theorem describes_of_build (h : info.build remaining resolve place = .ok type) :
    ∃ e, place.Holds e ∧
      Describes info remaining (fun u value type => resolve u value = .ok type) place e type := by
  obtain ⟨e, hentry, h⟩ := exists_ok_of_bind_ok h
  obtain ⟨name?, -, h⟩ := exists_ok_of_bind_ok h
  obtain ⟨size, hsize, h⟩ := exists_ok_of_bind_ok h
  rw [during_eq_ok] at hentry
  refine ⟨e, hentry, ?_⟩
  dsimp only at h
  split at h
  next htag =>
    obtain ⟨kind, hkind, h⟩ := exists_ok_of_bind_ok h
    cases h
    exact .base htag hsize hkind
  split at h
  next htag =>
    obtain ⟨pointee, hname, h⟩ := exists_ok_of_bind_ok h
    cases h
    exact .pointer (List.contains_iff_mem.1 htag) hname
  split at h
  next htag =>
    obtain ⟨members, hmembers, h⟩ := exists_ok_of_bind_ok h
    cases h
    exact .record (List.contains_iff_mem.1 htag) hsize (of_members hentry hmembers)
  split at h
  next htag =>
    obtain ⟨element?, helement, h⟩ := exists_ok_of_bind_ok h
    cases element? with
    | none => cases h
    | some element =>
      obtain ⟨counts?, hcounts, h⟩ := exists_ok_of_bind_ok h
      obtain ⟨counts, rfl, hnested⟩ := of_arrayOf h
      obtain ⟨value, hvalue, hmeans⟩ := of_innerType helement rfl
      exact .array htag hvalue hmeans hcounts hnested
  split at h
  next htag =>
    obtain ⟨values, hvalues, h⟩ := exists_ok_of_bind_ok h
    cases h
    exact .enumeration htag hsize hvalues
  split at h
  next htag =>
    obtain ⟨inner?, hinner, h⟩ := exists_ok_of_bind_ok h
    cases inner? with
    | none => cases h
    | some inner =>
      cases h
      obtain ⟨value, hvalue, hmeans⟩ := of_innerType hinner rfl
      exact .typedef htag hvalue hmeans
  split at h
  · cases h
  next qualifier htag =>
    obtain ⟨inner?, hinner, h⟩ := exists_ok_of_bind_ok h
    cases inner? with
    | none => cases h
    | some inner =>
      cases h
      obtain ⟨value, hvalue, hmeans⟩ := of_innerType hinner rfl
      exact .qualified htag hvalue hmeans

theorem Describes.mono (h : Describes info remaining means place e type)
    (hle : ∀ u value type, means u value type → means' u value type) :
    Describes info remaining means' place e type := by
  cases h with
  | base htag hsize hkind => exact .base htag hsize hkind
  | pointer htag hname => exact .pointer htag hname
  | record htag hsize hmembers =>
    refine .record htag hsize (hmembers.imp fun c m hm => ?_)
    obtain ⟨value, hvalue, hmeans⟩ := hm
    exact ⟨value, hvalue, hle _ _ _ hmeans⟩
  | array htag hvalue hmeans hcounts hnested =>
    exact .array htag hvalue (hle _ _ _ hmeans) hcounts hnested
  | enumeration htag hsize hvalues => exact .enumeration htag hsize hvalues
  | typedef htag hvalue hmeans => exact .typedef htag hvalue (hle _ _ _ hmeans)
  | qualified htag hvalue hmeans => exact .qualified htag hvalue (hle _ _ _ hmeans)

theorem TypedBy.unique {u : CompilationUnit} {value value' : AttributeValue}
    (h : TypedBy u e value) (h' : TypedBy u e value') : value = value' :=
  Option.some.inj (Except.ok.inj (h.symm.trans h'))

theorem Place.Holds.unique {e' : Entry} (h : place.Holds e) (h' : place.Holds e') : e = e' :=
  Except.ok.inj (h.symm.trans h')

/-- What an entry refers to has a type, if the entry has one. -/
theorem Describes.of_refers (h : Describes info remaining means place e type)
    (hentry : place.Holds e) {value : AttributeValue} (hrefers : Refers place value) :
    ∃ inner, means place.home value inner := by
  cases hrefers with
  | own hentry' hown hvalue' =>
    obtain rfl := hentry.unique hentry'
    have hpointers : ∀ tag ∈ pointerTags, tag ∉ derivedTags := by decide
    have hrecords : ∀ tag ∈ recordTags, tag ∉ derivedTags := by decide
    cases h with
    | base htag | enumeration htag => exact absurd (htag ▸ hown) (by decide)
    | pointer htag => exact absurd hown (hpointers _ htag)
    | record htag => exact absurd hown (hrecords _ htag)
    | array _ hvalue hmeans | typedef _ hvalue hmeans | qualified _ hvalue hmeans =>
      exact ⟨_, hvalue.unique hvalue' ▸ hmeans⟩
  | @member _ m hentry' hrecord hmember hvalue' =>
    obtain rfl := hentry.unique hentry'
    have hpointers : ∀ tag ∈ pointerTags, tag ∉ recordTags := by decide
    have hqualifiers : ∀ tag ∈ recordTags, qualifier? tag = none := by decide
    cases h with
    | base htag | enumeration htag | array htag | typedef htag =>
      exact absurd (htag ▸ hrecord) (by decide)
    | pointer htag => exact absurd hrecord (hpointers _ htag)
    | qualified htag =>
      rw [hqualifiers _ hrecord] at htag
      cases htag
    | record _ _ hmembers =>
      obtain ⟨member, -, value, hvalue, hmeans⟩ := exists_mem_of_forall₂ hmembers hmember
      exact ⟨_, hvalue.unique hvalue' ▸ hmeans⟩

end Entries

/-- A number is not a pointer. -/
theorem kind_ne_pointer {u : CompilationUnit} {e : Entry} {kind : Scalar}
    (h : baseKind u e = .ok kind) : kind ≠ .pointer := by
  obtain ⟨value?, -, h⟩ := exists_ok_of_bind_ok h
  split at h
  · split at h
    · unfold scalarOf at h
      split at h <;> cases h <;> decide
    · cases h
  · cases h

/-! ## Unfolding -/

section Unfolding

variable {info : Info} {remaining : Nat} {u : CompilationUnit} {value : AttributeValue}
  {type : ValueType}

theorem unfolds_of_resolve (h : info.resolve remaining u value = .ok type) :
    info.Unfolds remaining u value type := by
  induction remaining generalizing u value type with
  | zero => cases h
  | succ remaining ih =>
    rw [resolve] at h
    cases hplace : info.locate u value with
    | none =>
      rw [hplace] at h
      cases h
    | some place =>
      rw [hplace] at h
      obtain ⟨e, hentry, hdescribes⟩ := describes_of_build h
      exact ⟨place, e, hplace, hentry, hdescribes.mono fun _ _ _ => ih⟩

theorem Describes.consistent {place : Place} {e : Entry}
    {means : CompilationUnit → AttributeValue → ValueType → Prop}
    (h : Describes info remaining means place e type)
    (hmeans : ∀ u value type, means u value type → type.Everywhere ValueType.Consistent) :
    type.Everywhere ValueType.Consistent := by
  cases h with
  | base _ _ hkind => exact .scalar fun hpointer => absurd hpointer (kind_ne_pointer hkind)
  | pointer => exact .scalar fun _ => rfl
  | record _ _ hmembers =>
    refine .record trivial fun m hm => ?_
    obtain ⟨c, -, value, -, hmember⟩ := exists_mem_of_forall₂ hmembers.flip hm
    exact hmeans _ _ _ hmember
  | array _ _ helement _ hnested => exact hnested.consistent (hmeans _ _ _ helement)
  | enumeration => exact .enumeration trivial
  | typedef _ _ hinner => exact .wrapper rfl (hmeans _ _ _ hinner)
  | qualified _ _ hinner => exact .wrapper rfl (hmeans _ _ _ hinner)

theorem Unfolds.consistent (h : info.Unfolds remaining u value type) :
    type.Everywhere ValueType.Consistent := by
  induction remaining generalizing u value type with
  | zero => exact h.elim
  | succ remaining ih =>
    obtain ⟨place, e, -, -, hdescribes⟩ := h
    exact hdescribes.consistent fun _ _ _ => ih

/-- A reference to a place unfolds, with so many references inside each other at most. -/
def Unfoldable (info : Info) (remaining : Nat) (place : Place) : Prop :=
  ∃ u value type, info.locate u value = some place ∧ info.Unfolds remaining u value type

/-- One reference further on, there is one reference less to go. -/
theorem Unfoldable.follow {place next : Place} (h : info.Unfoldable remaining place)
    (hnext : info.Follows place next) :
    ∃ fewer, remaining = fewer + 1 ∧ info.Unfoldable fewer next := by
  obtain ⟨u, value, type, hplace, h⟩ := h
  cases remaining with
  | zero => exact h.elim
  | succ fewer =>
    obtain ⟨place', e, hplace', hentry, hdescribes⟩ := h
    obtain rfl : place = place' := Option.some.inj (hplace.symm.trans hplace')
    obtain ⟨value', hrefers, hlocate⟩ := hnext
    obtain ⟨inner, hinner⟩ := hdescribes.of_refers hentry hrefers
    exact ⟨fewer, rfl, place.home, value', inner, hlocate, hinner⟩

/-- A chain of places that follow each other is no longer than the references that may be inside
each other. -/
theorem Unfoldable.length_le {place : Place} {chain : List Place}
    (h : info.Unfoldable remaining place) (hchain : (place :: chain).IsChain info.Follows) :
    (place :: chain).length ≤ remaining := by
  induction chain generalizing remaining place with
  | nil =>
    obtain ⟨u, value, type, -, h⟩ := h
    cases remaining with
    | zero => exact h.elim
    | succ fewer => simp
  | cons next chain ih =>
    rw [List.isChain_cons_cons] at hchain
    obtain ⟨fewer, rfl, hnext⟩ := h.follow hchain.1
    have hlength := ih hnext hchain.2
    simpa using hlength

/-- The way from one place to another uses up references. -/
theorem Unfoldable.transGen {place target : Place} (h : info.Unfoldable remaining place)
    (hpath : Relation.TransGen info.Follows place target) :
    ∃ fewer < remaining, info.Unfoldable fewer target := by
  induction hpath with
  | single hnext =>
    obtain ⟨fewer, rfl, hnext⟩ := h.follow hnext
    exact ⟨fewer, by omega, hnext⟩
  | tail _ hnext ih =>
    obtain ⟨fewer, hlt, hbefore⟩ := ih
    obtain ⟨last, rfl, hlast⟩ := hbefore.follow hnext
    exact ⟨last, by omega, hlast⟩

/-- A place that leads back to itself cannot be unfolded. -/
theorem not_unfoldable_of_cycle {place : Place}
    (hcycle : Relation.TransGen info.Follows place place) : ¬ info.Unfoldable remaining place := by
  induction remaining using Nat.strongRecOn with
  | ind remaining ih =>
    intro h
    obtain ⟨fewer, hlt, hagain⟩ := h.transGen hcycle
    exact ih fewer hlt hagain

/-- Nor can a place that leads there. -/
theorem not_unfoldable_of_reaches_cycle {place target : Place}
    (hpath : Relation.ReflTransGen info.Follows place target)
    (hcycle : Relation.TransGen info.Follows target target) :
    ¬ info.Unfoldable remaining place := by
  intro h
  obtain ⟨fewer, -, hagain⟩ := h.transGen (Relation.TransGen.trans_right hpath hcycle)
  exact not_unfoldable_of_cycle hcycle hagain

end Unfolding

/-! ## The walk through the references -/

section Walk

variable {info : Info} {place : Place} {e : Entry}
  {f g : CompilationUnit → AttributeValue → Except Error ValueType}

theorem bind_congr_of_ok {α β : Type} {x : Except Error α} {f g : α → Except Error β}
    (h : ∀ a, x = .ok a → f a = g a) : (x >>= f) = (x >>= g) := by
  cases x with
  | error e => rfl
  | ok a => exact h a rfl

theorem mapM_congr_of_mem {α β : Type} {as : List α} {f g : α → Except Error β}
    (h : ∀ a ∈ as, f a = g a) : as.mapM f = as.mapM g := by
  induction as with
  | nil => rfl
  | cons a as ih =>
    rw [List.mapM_cons, List.mapM_cons, h a List.mem_cons_self,
      ih fun a ha => h a (List.mem_cons_of_mem _ ha)]

theorem innerType_congr {u : CompilationUnit}
    (h : ∀ value, TypedBy u e value → f u value = g u value) :
    innerType f u e = innerType g u e := by
  refine bind_congr_of_ok fun value? hvalue => ?_
  cases value? with
  | none => rfl
  | some value =>
    dsimp only
    rw [h value (during_eq_ok.1 hvalue)]

theorem members_congr (hentry : place.Holds e)
    (h : ∀ m ∈ childrenTagged place.home e Tag.member, ∀ value, TypedBy place.home m value →
      f place.home value = g place.home value) :
    info.members f place = info.members g place := by
  rw [members, members, hentry.childrenAt_eq, hentry.childrenAt_eq]
  refine congrArg (· >>= _) (mapM_congr_of_mem fun m hm => ?_)
  refine bind_congr_of_ok fun name? _ => ?_
  rw [innerType_congr (h m hm)]

theorem mem_of_qualifier? {tag : Nat} {qualifier : String} (h : qualifier? tag = some qualifier) :
    tag ∈ derivedTags := by
  unfold qualifier? at h
  split at h
  next htag => rw [htag]; decide
  split at h
  next htag => rw [htag]; decide
  split at h
  next htag => rw [htag]; decide
  split at h
  next htag => rw [htag]; decide
  · cases h

/-- The type of an entry depends on the references of the entry only. -/
theorem build_congr (remaining : Nat)
    (h : ∀ value, Refers place value → f place.home value = g place.home value) :
    info.build remaining f place = info.build remaining g place := by
  refine bind_congr_of_ok fun e hentry => ?_
  have hentry : place.Holds e := during_eq_ok.1 hentry
  have hown (htag : e.tag ∈ derivedTags) :
      innerType f place.home e = innerType g place.home e :=
    innerType_congr fun value hvalue => h value (.own hentry htag hvalue)
  refine bind_congr_of_ok fun name? _ => bind_congr_of_ok fun size _ => ?_
  refine ite_congr rfl (fun _ => rfl) fun _ => ite_congr rfl (fun _ => rfl) fun _ => ?_
  refine ite_congr rfl (fun htag => ?_) fun _ => ite_congr rfl (fun htag => ?_) fun _ => ?_
  · have htag := List.contains_iff_mem.1 htag
    rw [members_congr hentry fun m hm value hvalue => h value (.member hentry htag hm hvalue)]
  · rw [hown (by rw [htag]; decide)]
  refine ite_congr rfl (fun _ => rfl) fun _ => ite_congr rfl (fun htag => ?_) fun _ => ?_
  · rw [hown (by rw [htag]; decide)]
  · cases hqualifier : qualifier? e.tag with
    | none => rfl
    | some qualifier =>
      dsimp only
      rw [hown (mem_of_qualifier? hqualifier)]

/-- The walk through the references from a variable, with a count that goes up from 0 and nothing
else that ends it: what it gives for a reference inside of `depth` others. -/
inductive Resolves (info : Info) :
    (depth : Nat) → CompilationUnit → AttributeValue → Except Error ValueType → Prop
  | tooDeep {depth : Nat} {u : CompilationUnit} {value : AttributeValue}
    (hdepth : maxReferences ≤ depth) :
    Resolves info depth u value (.error (.unsupported .typeChain))
  | dangling {depth : Nat} {u : CompilationUnit} {value : AttributeValue}
    (hdepth : depth < maxReferences) (hplace : info.locate u value = none) :
    Resolves info depth u value (.error (.unsupported .typeReference))
  | entry {depth : Nat} {u : CompilationUnit} {value : AttributeValue} {place : Place}
    (hdepth : depth < maxReferences) (hplace : info.locate u value = some place)
    {inner : CompilationUnit → AttributeValue → Except Error ValueType}
    (hinner : ∀ value, Refers place value →
      Resolves info (depth + 1) place.home value (inner place.home value)) :
    Resolves info depth u value (info.build (maxReferences - (depth + 1)) inner place)

theorem resolve_of_tooDeep {depth : Nat} (h : maxReferences ≤ depth) (u : CompilationUnit)
    (value : AttributeValue) :
    info.resolve (maxReferences - depth) u value = .error (.unsupported .typeChain) := by
  rw [Nat.sub_eq_zero_of_le h, resolve]

theorem resolve_of_depth {depth : Nat} (h : depth < maxReferences) (u : CompilationUnit)
    (value : AttributeValue) :
    info.resolve (maxReferences - depth) u value =
      match info.locate u value with
      | none => .error (.unsupported .typeReference)
      | some place =>
        info.build (maxReferences - (depth + 1)) (info.resolve (maxReferences - (depth + 1)))
          place := by
  have hcount : maxReferences - depth = maxReferences - (depth + 1) + 1 := by omega
  rw [hcount]
  rfl

theorem Resolves.eq {depth : Nat} {u : CompilationUnit} {value : AttributeValue}
    {outcome : Except Error ValueType} (h : info.Resolves depth u value outcome) :
    outcome = info.resolve (maxReferences - depth) u value := by
  induction h with
  | tooDeep hdepth => rw [resolve_of_tooDeep hdepth]
  | dangling hdepth hplace => rw [resolve_of_depth hdepth, hplace]
  | entry hdepth hplace _ ih =>
    rw [resolve_of_depth hdepth, hplace]
    exact build_congr _ ih

/-- The walk comes to an end for every reference, also where references go in circles. -/
theorem resolves_resolve (info : Info) (depth : Nat) (u : CompilationUnit)
    (value : AttributeValue) :
    info.Resolves depth u value (info.resolve (maxReferences - depth) u value) := by
  by_cases hdepth : maxReferences ≤ depth
  · rw [resolve_of_tooDeep hdepth]
    exact .tooDeep hdepth
  · rw [resolve_of_depth (by omega)]
    cases hplace : info.locate u value with
    | none => exact .dangling (by omega) hplace
    | some place =>
      exact .entry (by omega) hplace fun value _ =>
        resolves_resolve info (depth + 1) place.home value
termination_by maxReferences - depth

end Walk

/-! ## Variables -/

/-- The variable behind a symbol, in the unit `u`, refers to its type by `value`. -/
def Declares (info : Info) (symbol : String) (u : CompilationUnit) (value : AttributeValue) :
    Prop :=
  ∃ e, info.variableIn symbol info.units = .ok (some (u, e)) ∧ TypedBy u e value

section Variables

variable {info : Info} {symbol : String} {u : CompilationUnit} {value : AttributeValue}
  {type : ValueType}

theorem Declares.variableType_eq (h : info.Declares symbol u value) :
    info.variableType symbol = some <$> info.resolve maxReferences u value := by
  obtain ⟨e, hfound, hvalue⟩ := h
  rw [variableType, hfound]
  change (during .variableType (u.attribute? e Attribute.type) >>= _) = _
  rw [during_eq_ok.2 hvalue]
  rfl

theorem exists_declares (h : info.variableType symbol = .ok (some type)) :
    ∃ u value, info.Declares symbol u value ∧ info.resolve maxReferences u value = .ok type := by
  obtain ⟨found, hfound, h⟩ := exists_ok_of_bind_ok h
  split at h
  · cases h
  next u e =>
    obtain ⟨value?, hvalue, h⟩ := exists_ok_of_bind_ok h
    cases value? with
    | none => cases h
    | some value =>
      obtain ⟨type, htype, h⟩ := exists_ok_of_bind_ok h
      cases h
      exact ⟨u, value, ⟨e, hfound, during_eq_ok.1 hvalue⟩, htype⟩

end Variables

/-- The type of a variable is found for every symbol, and is a finite unfolding of references.

A type that is found is what the reference of the variable unfolds to, with at most `maxReferences`
references inside each other: sizes agree at every node, the first dimension of an array is the
outermost one, and no chain of entries that are made from each other is longer. And for every
variable that refers to a type the walk through the references ends, with one outcome; if the type
contains itself, or something that does, that is an error. -/
theorem variable_type_unfolds_references (info : Info) (symbol : String) :
    (∀ type, info.variableType symbol = .ok (some type) →
      ∃ u value, info.Declares symbol u value ∧ info.Unfolds maxReferences u value type ∧
        type.Everywhere ValueType.Consistent ∧
        ∀ place chain, info.locate u value = some place →
          (place :: chain).IsChain info.Follows → (place :: chain).length ≤ maxReferences) ∧
    ∀ u value, info.Declares symbol u value →
      (∃ outcome, info.variableType symbol = some <$> outcome ∧
        ∀ other, info.Resolves 0 u value other ↔ other = outcome) ∧
      ∀ place target, info.locate u value = some place →
        Relation.ReflTransGen info.Follows place target →
        Relation.TransGen info.Follows target target →
        ∃ error, info.variableType symbol = .error error := by
  refine ⟨fun type htype => ?_, fun u value hdeclares => ⟨?_, ?_⟩⟩
  · obtain ⟨u, value, hdeclares, hresolve⟩ := exists_declares htype
    have hunfolds := unfolds_of_resolve hresolve
    refine ⟨u, value, hdeclares, hunfolds, hunfolds.consistent, fun place chain hplace => ?_⟩
    exact Unfoldable.length_le ⟨u, value, type, hplace, hunfolds⟩
  · refine ⟨info.resolve maxReferences u value, hdeclares.variableType_eq, fun other => ?_⟩
    exact ⟨fun h => h.eq, fun h => h ▸ resolves_resolve info 0 u value⟩
  · intro place target hplace hpath hcycle
    rw [hdeclares.variableType_eq]
    cases hresolve : info.resolve maxReferences u value with
    | error error => exact ⟨error, rfl⟩
    | ok type =>
      have hunfoldable : info.Unfoldable maxReferences place :=
        ⟨u, value, type, hplace, unfolds_of_resolve hresolve⟩
      exact absurd hunfoldable (not_unfoldable_of_reaches_cycle hpath hcycle)

/-- A little-endian unit at the start of the debug information, with entries from offset 11 on. -/
def unitOf (abbreviations : List Abbreviation) (entries : Bytes) : CompilationUnit where
  order := .little
  version := 4
  addressSize := 8
  offsetSize := 4
  offset := 0
  headerSize := 11
  entries := entries
  abbreviations := abbreviations
  stringOffsetsBase := 0

/-- The debug information that consists of one unit. -/
def ofUnit (u : CompilationUnit) : Info := ⟨⟨[], [], [], [], [], [], []⟩, [u]⟩

/-- Variables with a name in place and one byte for the offset of the type. -/
def variableAbbreviation : Abbreviation :=
  ⟨2, Tag.globalVariable, false, [⟨0x03, 0x08, 0⟩, ⟨Attribute.type, 0x11, 0⟩]⟩

/-- A variable `a` whose type is a typedef of itself, and a variable `b` with two rows of three
integers. -/
def circularUnit : CompilationUnit :=
  unitOf
    [⟨1, 0x11, true, []⟩, variableAbbreviation,
     ⟨3, Tag.typedef, false, [⟨Attribute.type, 0x11, 0⟩]⟩,
     ⟨4, Tag.base, false, [⟨Attribute.byteSize, 0x0b, 0⟩, ⟨Attribute.encoding, 0x0b, 0⟩]⟩,
     ⟨5, Tag.array, true, [⟨Attribute.type, 0x11, 0⟩]⟩,
     ⟨6, Tag.subrange, false, [⟨Attribute.count, 0x0b, 0⟩]⟩]
    [1, 2, 0x61, 0, 20, 2, 0x62, 0, 22, 3, 20, 5, 29, 6, 2, 6, 3, 0, 4, 4, 5, 0]

def circular : Info := ofUnit circularUnit

/-- The walk through the type of `a` ends although the references go in a circle. -/
theorem circular_type_unfolds_references :
    (∃ u value, circular.Declares "_b" u value ∧
      circular.Unfolds maxReferences u value
        (.array "[2][3]" (some 24) (.array "[3]" (some 12) (.scalar "" (some 4) .int) 3) 2)) ∧
    ∃ error, circular.variableType "_a" = .error error := by
  constructor
  · have htype : circular.variableType "_b" = .ok (some
        (.array "[2][3]" (some 24) (.array "[3]" (some 12) (.scalar "" (some 4) .int) 3) 2)) := by
      with_unfolding_all rfl
    obtain ⟨u, value, hdeclares, hunfolds, -⟩ :=
      (variable_type_unfolds_references circular "_b").1 _ htype
    exact ⟨u, value, hdeclares, hunfolds⟩
  · have hfollows : circular.Follows ⟨circularUnit, 20⟩ ⟨circularUnit, 20⟩ :=
      ⟨.unitReference 20, .own rfl (by decide) rfl, rfl⟩
    have hdeclares : circular.Declares "_a" circularUnit (.unitReference 20) :=
      ⟨⟨variableAbbreviation, circularUnit.entries.drop 2⟩, by decide +kernel, rfl⟩
    exact ((variable_type_unfolds_references circular "_a").2 _ _ hdeclares).2 _ _ rfl .refl
      (.single hfollows)

end Info

end Debug

end MachInspect
