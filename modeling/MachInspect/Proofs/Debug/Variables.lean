-- SUMMARY: Which variable a symbol takes its type from.
import MachInspect.Proofs.Debug.Types
import Mathlib.Data.List.Find

/-!
# Variables behind symbols

A symbol has the name of its variable with an underscore in front. The search for the variable goes
through all named variables in the order of units and entries, and stops at the first one that it
takes, or at the first place that cannot be read. It also takes a variable whose name is all of the
symbol, and that is the variable of another symbol. So the type of a symbol is that of its own
variable unless such a variable, or something that cannot be read, stands before it.
-/
namespace MachInspect.Debug.Info

open Value

/-! ## Variables in order -/

/-- A top-level variable that has a name. -/
structure NamedVariable where
  name : String
  home : CompilationUnit
  entry : Entry
  deriving DecidableEq

/-- The variable that an entry declares, if it declares a named one. -/
def namedVariable? (info : Info) (u : CompilationUnit) (e : Entry) :
    Option (Except Error NamedVariable) :=
  if e.tag = Tag.globalVariable then
    match info.entryName u e with
    | .error error => some (.error error)
    | .ok none => none
    | .ok (some name) => some (.ok ⟨name, u, e⟩)
  else none

/-- The named variables of a unit, with an error in the place of what cannot be read. -/
def unitVariables (info : Info) (u : CompilationUnit) : List (Except Error NamedVariable) :=
  match during .unitRoot (u.rootAt u.entries) with
  | .error error => [.error error]
  | .ok root =>
    (u.children root).entries.filterMap (info.namedVariable? u) ++
      ((u.children root).fault.map fun fault => .error (.debug .unitChildren fault)).toList

/-- All named variables, in the order of units and entries. -/
def namedVariables (info : Info) : List (Except Error NamedVariable) :=
  info.units.flatMap info.unitVariables

/-- The type that a variable declares, if it declares one. -/
def declaredType (info : Info) (v : NamedVariable) : Except Error (Option ValueType) := do
  match ← during .variableType (v.home.attribute? v.entry Attribute.type) with
  | none => return none
  | some value => return some (← info.resolve maxReferences v.home value)

/-! ## The search -/

/-- The search stops at what cannot be read and at variables whose name it takes. -/
def stops (takes : String → Bool) : Except Error NamedVariable → Bool
  | .error _ => true
  | .ok found => takes found.name

/-- What the search gives where it stops. -/
def outcome (found : Option (Except Error NamedVariable)) : Except Error (Option NamedVariable) :=
  match found with
  | none => .ok none
  | some reading => some <$> reading

section Search

variable {info : Info} {symbol : String}

theorem home_of_namedVariable? {u : CompilationUnit} {e : Entry} {found : NamedVariable}
    (h : info.namedVariable? u e = some (.ok found)) : found.home = u := by
  unfold namedVariable? at h
  split at h
  · split at h <;> cases h
    rfl
  · cases h

theorem findVariable_eq (u : CompilationUnit) (entries : List Entry) :
    info.findVariable u symbol entries =
      Option.map NamedVariable.entry <$> outcome
        ((entries.filterMap (info.namedVariable? u)).find? (stops (namesVariable symbol))) := by
  induction entries with
  | nil => rfl
  | cons e rest ih =>
    rw [findVariable, ih, List.filterMap_cons, namedVariable?]
    by_cases htag : e.tag = Tag.globalVariable
    · rw [if_pos htag, if_pos htag]
      cases info.entryName u e with
      | error error => rfl
      | ok name? =>
        cases name? with
        | none => rfl
        | some name =>
          have hstops : stops (namesVariable symbol) (.ok ⟨name, u, e⟩) =
              namesVariable symbol name := rfl
          dsimp only
          rw [List.find?_cons, hstops]
          change (if namesVariable symbol name = true then _ else _) = _
          cases namesVariable symbol name with
          | false => rfl
          | true => rfl
    · rw [if_neg htag, if_neg htag]

theorem variableIn_eq (units : List CompilationUnit) :
    info.variableIn symbol units =
      Option.map (fun found => (found.home, found.entry)) <$> outcome
        ((units.flatMap info.unitVariables).find? (stops (namesVariable symbol))) := by
  induction units with
  | nil => rfl
  | cons u rest ih =>
    rw [variableIn, ih, List.flatMap_cons, List.find?_append, unitVariables]
    cases during .unitRoot (u.rootAt u.entries) with
    | error error => rfl
    | ok root =>
      change (info.findVariable u symbol (u.children root).entries >>= _) = _
      rw [findVariable_eq, List.find?_append]
      cases hfound : ((u.children root).entries.filterMap (info.namedVariable? u)).find?
          (stops (namesVariable symbol)) with
      | some reading =>
        cases reading with
        | error error => rfl
        | ok found =>
          obtain ⟨e, -, he⟩ := List.mem_filterMap.1 (List.mem_of_find?_eq_some hfound)
          rw [← home_of_namedVariable? he]
          rfl
      | none =>
        cases (u.children root).fault with
        | some fault => rfl
        | none => rfl

/-- A symbol has the type of the variable at which the search stops. -/
theorem variableType_eq (info : Info) (symbol : String) :
    info.variableType symbol =
      match info.namedVariables.find? (stops (namesVariable symbol)) with
      | none => .ok none
      | some reading => reading >>= info.declaredType := by
  rw [variableType, variableIn_eq, ← namedVariables]
  cases info.namedVariables.find? (stops (namesVariable symbol)) with
  | none => rfl
  | some reading =>
    cases reading with
    | error error => rfl
    | ok found => rfl

end Search

/-! ## Symbols and their own variables -/

theorem namesVariable_underscore (name other : String) :
    namesVariable ("_" ++ name) other = (other == "_" ++ name || other == name) := by
  have hown : ("_" ++ other == "_" ++ name) = (other == name) := by
    rw [Bool.eq_iff_iff, beq_iff_eq, beq_iff_eq, String.append_right_inj]
  rw [namesVariable, hown]

/-- Before the first variable with the name behind the underscore, only a variable with the name of
the whole symbol is taken. -/
theorem find_before_own {own : NamedVariable} {before : List (Except Error NamedVariable)}
    (hfirst : ∀ v, .ok v ∈ before → v.name ≠ own.name) :
    before.find? (stops (namesVariable ("_" ++ own.name))) =
      before.find? (stops (· == "_" ++ own.name)) := by
  refine List.find?_congr fun reading hreading => ?_
  cases reading with
  | error error => rfl
  | ok v =>
    have hother : (v.name == own.name) = false := beq_false_of_ne (hfirst v hreading)
    simp only [stops, namesVariable_underscore, hother, Bool.or_false]

/-- The type of a symbol is that of its own variable, the first one whose name follows the
underscore, exactly if the search does not stop before it, at something that cannot be read or at a
variable with the name of the whole symbol, or if that has the same type. -/
theorem symbol_has_own_type_iff (info : Info) {own : NamedVariable}
    {before after : List (Except Error NamedVariable)}
    (hvariables : info.namedVariables = before ++ .ok own :: after)
    (hfirst : ∀ v, .ok v ∈ before → v.name ≠ own.name) :
    info.variableType ("_" ++ own.name) = info.declaredType own ↔
      ∀ reading, before.find? (stops (· == "_" ++ own.name)) = some reading →
        (reading >>= info.declaredType) = info.declaredType own := by
  have htaken : stops (namesVariable ("_" ++ own.name)) (.ok own) = true := by
    simp [stops, namesVariable_underscore]
  rw [variableType_eq, hvariables, List.find?_append, find_before_own hfirst,
    List.find?_cons_of_pos htaken]
  cases before.find? (stops (· == "_" ++ own.name)) with
  | none =>
    refine iff_of_true rfl ?_
    intro reading hreading
    cases hreading
  | some reading => simp

/-- The types `char` and `int`, and after them variables, each with its name and the offset of its
type: 12 for `char` and 20 for `int`. -/
def declaringUnit (entries : Bytes) : CompilationUnit :=
  unitOf
    [⟨1, 0x11, true, []⟩, variableAbbreviation,
     ⟨3, Tag.base, false,
       [⟨0x03, 0x08, 0⟩, ⟨Attribute.byteSize, 0x0b, 0⟩, ⟨Attribute.encoding, 0x0b, 0⟩]⟩]
    ([1, 3, 0x63, 0x68, 0x61, 0x72, 0, 1, 6, 3, 0x69, 0x6e, 0x74, 0, 4, 5] ++ entries)

def declaring (entries : Bytes) : Info := ofUnit (declaringUnit entries)

/-- The variable of this name whose attributes start at this position. -/
def declared (entries : Bytes) (name : String) (position : Nat) : NamedVariable :=
  ⟨name, declaringUnit entries, variableAbbreviation, entries.drop position⟩

/-- A variable `b` of type `char` and then `a` of type `int`. -/
def apart : Bytes := [2, 0x62, 0, 12, 2, 0x61, 0, 20, 0]

theorem apart_symbol_has_own_type :
    (declaring apart).variableType "_a" = .ok (some (.scalar "int" (some 4) .int)) := by
  have hvariables : (declaring apart).namedVariables =
      [.ok (declared apart "b" 1)] ++ .ok (declared apart "a" 5) :: [] := by
    decide +kernel
  have hown := symbol_has_own_type_iff (declaring apart) hvariables (by simp [declared])
  have htype : (declaring apart).declaredType (declared apart "a" 5) =
      .ok (some (.scalar "int" (some 4) .int)) := by
    with_unfolding_all rfl
  rw [← htype]
  exact hown.2 (by simp [declared, stops])

/-- A variable `_a` of type `char` and then `a` of type `int`. -/
def underscored : Bytes := [2, 0x5f, 0x61, 0, 12, 2, 0x61, 0, 20, 0]

/-- The symbol of `a` has the type of `_a`. -/
theorem underscored_symbol_has_other_type :
    (declaring underscored).namedVariables =
        [.ok (declared underscored "_a" 1), .ok (declared underscored "a" 6)] ∧
      (declaring underscored).declaredType (declared underscored "a" 6) =
        .ok (some (.scalar "int" (some 4) .int)) ∧
      (declaring underscored).variableType "_a" =
        .ok (some (.scalar "char" (some 1) .char)) := by
  refine ⟨?_, ?_, ?_⟩
  · decide +kernel
  · with_unfolding_all rfl
  · with_unfolding_all rfl

end MachInspect.Debug.Info
