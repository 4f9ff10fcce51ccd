-- SUMMARY: The declared type of a variable, read from the debug information.
import MachInspect.Debug.Info
import MachInspect.Debug.Names
import MachInspect.Value.Type

/-!
# Types of variables

A type is followed through its references, at most `maxReferences` deep, so types that contain
themselves are refused. Pointers end the walk: only the name of what they point to is kept.
-/
namespace MachInspect.Debug

open Text Value

/-- How many references may lead from a variable to a part of its type. -/
def maxReferences : Nat := 32

-- ---------------------------------------------------------------------------
-- Tags and attributes that types are made of
-- ---------------------------------------------------------------------------

namespace Tag

def array : Nat := 0x01
def classType : Nat := 0x02
def enumeration : Nat := 0x04
def member : Nat := 0x0d
def pointer : Nat := 0x0f
def reference : Nat := 0x10
def structType : Nat := 0x13
def typedef : Nat := 0x16
def unionType : Nat := 0x17
def subrange : Nat := 0x21
def base : Nat := 0x24
def const : Nat := 0x26
def enumerator : Nat := 0x28
def globalVariable : Nat := 0x34
def volatile : Nat := 0x35
def restrict : Nat := 0x37
def rvalueReference : Nat := 0x42
def atomic : Nat := 0x47

end Tag

namespace Attribute

def byteSize : Nat := 0x0b
def bitSize : Nat := 0x0d
def constValue : Nat := 0x1c
def upperBound : Nat := 0x2f
def count : Nat := 0x37
def memberLocation : Nat := 0x38
def encoding : Nat := 0x3e
def type : Nat := 0x49
def dataBitOffset : Nat := 0x6b

end Attribute

namespace Info

/-- An attribute as an unsigned number, if it is one. -/
def number? (u : CompilationUnit) (e : Entry) (name : Nat) : Except Error (Option UInt64) := do
  return (← during .attribute (u.attribute? e name)).bind AttributeValue.unsigned?

/-- The children of the entry at a place. The three steps name what is being done. -/
def childrenAt (place : Place) (tree root iterate : DebugStep) (tag : Nat)
    (read : Entry → Except Error α) : Except Error (List α) := do
  let start ← during tree (place.home.entriesFrom place.offset)
  let e ← during root (place.home.rootAt start)
  let children := place.home.children e
  let found ← (children.entries.filter fun c => c.tag == tag).mapM read
  match children.fault with
  | some fault => .error (.debug iterate fault)
  | none => return found

-- ---------------------------------------------------------------------------
-- Parts of types
-- ---------------------------------------------------------------------------

/-- How a base type's encoding is shown. -/
def scalarOf (encoding : Nat) : Except Error Scalar :=
  match encoding with
  | 0x02 => .ok .bool
  | 0x03 => .ok .complex
  | 0x04 => .ok .float
  | 0x05 => .ok .int
  | 0x06 => .ok .char
  | 0x07 | 0x10 => .ok .uint
  | 0x08 => .ok .uchar
  | other => .error (.unsupported (.baseEncoding (encodingName other)))

/-- The kind of number that a base type holds. -/
def baseKind (u : CompilationUnit) (e : Entry) : Except Error Scalar := do
  match (← during .encoding (u.attribute? e Attribute.encoding)).bind AttributeValue.unsigned? with
  | some encoding =>
    if encoding.toNat < 256 then scalarOf encoding.toNat
    else .error (.unsupported .baseEncodingMissing)
  | none => .error (.unsupported .baseEncodingMissing)

/-- A member location given as an expression: only "so many bytes further" is understood. -/
def expressionOffset : Bytes → Except Error UInt64
  | [] => .error (.debug .memberExpression .unexpectedEnd)
  | 0x23 :: operand => do
    return UInt64.ofNat (← during .memberExpression (Scan.uleb.run' operand))
  | _ => .error (.unsupported .memberLocation)

/-- Where a member lies; members of unions say nothing and start at 0. -/
def memberOffset (u : CompilationUnit) (e : Entry) : Except Error UInt64 := do
  match ← during .memberLocation (u.attribute? e Attribute.memberLocation) with
  | none => return 0
  | some value =>
    match value.unsigned?, value with
    | some offset, _ => return offset
    | none, .block expression => expressionOffset expression
    | none, _ => .error (.unsupported .memberLocation)

/-- The width of a bit-field; 0 if only its position is given. -/
def memberBits (u : CompilationUnit) (e : Entry) : Except Error (Option UInt64) := do
  match ← number? u e Attribute.bitSize with
  | some bits => return some bits
  | none => return (← number? u e Attribute.dataBitOffset).map fun _ => 0

/-- The number of elements of an array dimension, from its count or its last index. A last index of
all ones has no usable count. -/
def subrangeCount (count upper : Option UInt64) : Option UInt64 :=
  match count, upper with
  | some count, _ => some count
  | none, some upper => if upper.toNat + 1 < 2 ^ 64 then some (upper + 1) else none
  | none, none => none

/-- The elements of each dimension of an array, outermost first. -/
def dimensions (place : Place) : Except Error (List (Option UInt64)) :=
  childrenAt place .arrayTree .arrayRoot .arrayChildren Tag.subrange fun e => do
    let count ← number? place.home e Attribute.count
    let upper ← number? place.home e Attribute.upperBound
    return subrangeCount count upper

/-- The value of an enumerator, if it has one. -/
def enumeratorValue (u : CompilationUnit) (e : Entry) : Except Error (Option Int64) := do
  let value? ← during .enumValue (u.attribute? e Attribute.constValue)
  return value?.bind fun value =>
    value.signed? <|> value.unsigned?.map UInt64.toInt64

/-- The enumerators that have a value. -/
def enumerators (info : Info) (place : Place) : Except Error (List (String × Int64)) := do
  let found ←
    childrenAt place .enumTree .enumRoot .enumChildren Tag.enumerator fun e => do
      match ← enumeratorValue place.home e with
      | none => return none
      | some value => return some ((← info.entryName place.home e).getD "", value)
  return found.filterMap id

/-- An array of arrays: one array type per dimension, the innermost around the element type. -/
def arrayOf (element : ValueType) : List (Option UInt64) → Except Error ValueType
  | [] => .ok element
  | count? :: rest => do
    let inner ← arrayOf element rest
    match count? with
    | none => .error (.unsupported .arrayBound)
    | some count =>
      let size := inner.size.map fun s => UInt64.ofNat (min (s.toNat * count.toNat) (2 ^ 64 - 1))
      return .array ("[" ++ decimal count.toNat ++ "]" ++ inner.name) size inner count

/-- What a structure's name starts with. -/
def recordKeyword (tag : Nat) : String :=
  if tag = Tag.classType then "class" else if tag = Tag.unionType then "union" else "struct"

/-- The qualifier that a tag adds, if it is one. -/
def qualifier? (tag : Nat) : Option String :=
  if tag = Tag.const then some "const"
  else if tag = Tag.volatile then some "volatile"
  else if tag = Tag.restrict then some "restrict"
  else if tag = Tag.atomic then some "_Atomic"
  else none

/-- The name of what a pointer points to. The target itself is not built, since types may contain
themselves through pointers. -/
def pointeeName (info : Info) : (remaining : Nat) → CompilationUnit → Entry → Except Error String
  | 0, _, _ => .ok "?"
  | remaining + 1, u, e => do
    match ← during .pointeeType (u.attribute? e Attribute.type) with
    | none => return "void"
    | some value =>
      match info.locate u value with
      | none => return "?"
      | some ⟨home, offset⟩ =>
        let target ← during .pointee (home.entryAt offset)
        let name? ← info.entryName home target
        if target.tag = Tag.pointer then
          return "*" ++ (← info.pointeeName remaining home target)
        else if target.tag = Tag.const then
          return "const " ++ (← info.pointeeName remaining home target)
        else
          match name? with
          | none => return "?"
          | some name =>
            if [Tag.structType, Tag.classType, Tag.unionType].contains target.tag then
              return recordKeyword target.tag ++ " " ++ name
            else if target.tag = Tag.enumeration then return "enum " ++ name
            else return name

-- ---------------------------------------------------------------------------
-- Types
-- ---------------------------------------------------------------------------

/-- The type that an entry refers to, if it does. `resolve` follows the reference. -/
def innerType (resolve : CompilationUnit → AttributeValue → Except Error ValueType)
    (u : CompilationUnit) (e : Entry) : Except Error (Option ValueType) := do
  match ← during .typeAttribute (u.attribute? e Attribute.type) with
  | some value => return some (← resolve u value)
  | none => return none

/-- The members of a structure. -/
def members (info : Info) (resolve : CompilationUnit → AttributeValue → Except Error ValueType)
    (place : Place) : Except Error (List (Member ValueType)) :=
  childrenAt place .structTree .structRoot .structChildren Tag.member fun e => do
    let name := (← info.entryName place.home e).getD ""
    match ← innerType resolve place.home e with
    | none => .error (.unsupported (.memberType name))
    | some type =>
      let bitSize ← memberBits place.home e
      return ⟨name, ← memberOffset place.home e, bitSize, type⟩

/-- The type that an entry describes. References from it are followed by `resolve`; names of
pointees look through at most `remaining` references. -/
def build (info : Info) (remaining : Nat)
    (resolve : CompilationUnit → AttributeValue → Except Error ValueType) (place : Place) :
    Except Error ValueType := do
  let u := place.home
  let e ← during .typeReference (u.entryAt place.offset)
  let name? ← info.entryName u e
  let size ← number? u e Attribute.byteSize
  let tag := e.tag
  if tag = Tag.base then return .scalar (name?.getD "") size (← baseKind u e)
  else if [Tag.pointer, Tag.reference, Tag.rvalueReference].contains tag then
    let pointee ← info.pointeeName remaining u e
    return .scalar ("*" ++ pointee) (some (size.getD (UInt64.ofNat u.addressSize))) .pointer
  else if [Tag.structType, Tag.classType, Tag.unionType].contains tag then
    let found ← info.members resolve place
    return .record (recordKeyword tag ++ " " ++ name?.getD "\x7b...\x7d") size found
  else if tag = Tag.array then
    match ← innerType resolve u e with
    | none => .error (.unsupported .arrayElement)
    | some element => arrayOf element (← dimensions place)
  else if tag = Tag.enumeration then
    let values ← info.enumerators place
    return .enumeration ("enum " ++ name?.getD "\x7b...\x7d") size values
  else if tag = Tag.typedef then
    match ← innerType resolve u e with
    | none => .error (.unsupported .typedefOfVoid)
    | some inner => return .wrapper (name?.getD "") inner.size .alias inner
  else
    match qualifier? tag with
    | none => .error (.unsupported (.typeTag (tagName tag)))
    | some qualifier =>
      match ← innerType resolve u e with
      | none => .error (.unsupported (.qualifiedVoid qualifier))
      | some inner =>
        return .wrapper (qualifier ++ " " ++ inner.name) inner.size .qualified inner

/-- The type that a reference from unit `u` means, if at most `remaining` references lead to any
part of it. -/
def resolve (info : Info) :
    (remaining : Nat) → CompilationUnit → AttributeValue → Except Error ValueType
  | 0, _, _ => .error (.unsupported .typeChain)
  | remaining + 1, u, value =>
    match info.locate u value with
    | none => .error (.unsupported .typeReference)
    | some place => info.build remaining (info.resolve remaining) place

-- ---------------------------------------------------------------------------
-- Variables
-- ---------------------------------------------------------------------------

/-- Whether a variable of this name is behind a symbol, which may have an underscore in front. -/
def namesVariable (symbol name : String) : Bool :=
  name == symbol || "_" ++ name == symbol

/-- The first entry of a list that declares the variable behind a symbol. -/
def findVariable (info : Info) (u : CompilationUnit) (symbol : String) :
    List Entry → Except Error (Option Entry)
  | [] => .ok none
  | e :: rest => do
    if e.tag = Tag.globalVariable then
      match ← info.entryName u e with
      | some name => if namesVariable symbol name then return some e
      | none => pure ()
    info.findVariable u symbol rest

/-- The first top-level variable behind a symbol, with its unit. -/
def variableIn (info : Info) (symbol : String) :
    List CompilationUnit → Except Error (Option (CompilationUnit × Entry))
  | [] => .ok none
  | u :: rest => do
    let root ← during .unitRoot (u.rootAt u.entries)
    let children := u.children root
    match ← info.findVariable u symbol children.entries with
    | some e => return some (u, e)
    | none =>
      match children.fault with
      | some fault => .error (.debug .unitChildren fault)
      | none => info.variableIn symbol rest

/-- The declared type of the variable behind a symbol: none if there is no such variable or it
declares no type. -/
def variableType (info : Info) (symbol : String) : Except Error (Option ValueType) := do
  match ← info.variableIn symbol info.units with
  | none => return none
  | some (u, e) =>
    match ← during .variableType (u.attribute? e Attribute.type) with
    | none => return none
    | some value => return some (← info.resolve maxReferences u value)

end Info

end MachInspect.Debug
