-- SUMMARY: Values of declared types as C-like literals.
import MachInspect.Error
import MachInspect.Text.Quoted
import MachInspect.Value.LongDouble
import MachInspect.Value.Type

/-!
# Values as literals

A variable's bytes are shown through its declared type, `(struct point){.x = int(0x1)}` for
instance. Storage that the file leaves to be zeroed is shown as zero, whatever the type, as long as
it is large enough.
-/
namespace MachInspect.Value

open Text

/-- What a variable is stored in. -/
inductive Storage where
  /-- Bytes of the file. -/
  | bytes (data : Bytes)
  /-- So many zeros that are not in the file. -/
  | zeros (length : Nat)
  deriving DecidableEq, Repr

namespace Storage

def length : Storage → Nat
  | bytes data => data.length
  | zeros length => length

/-- Storage as a dump of characters. -/
def ascii : Storage → String
  | bytes data => Text.ascii data
  | zeros length => String.ofList (List.replicate length '.')

end Storage

/-- What reading a value depends on besides its type. -/
structure Env where
  order : ByteOrder
  /-- How 16-byte floats are laid out, if they can be shown. -/
  longDouble : Option LongDoubleLayout
  deriving DecidableEq, Repr

/-- The size of a type, if the storage holds all of it. -/
def sized (type : ValueType) (length : Nat) : Except Error UInt64 :=
  match type.size with
  | none => .error (.unsupported (.incompleteType type.name))
  | some size =>
    if length < size.toNat then .error (.truncated .typedValue 0 size.toNat length) else .ok size

section

variable {m : Type → Type} [Monad m] (slices : Slices m)

def unsigned (env : Env) (data : Bytes) (size : UInt64) : ExceptT Error m UInt64 := do
  match env.order.unsigned? (← slices.part data 0 size.toNat) with
  | some value => return value
  | none => throw (.unsupported (.integerSize size))

def signed (env : Env) (data : Bytes) (size : UInt64) : ExceptT Error m Int64 := do
  match env.order.signed? (← slices.part data 0 size.toNat) with
  | some value => return value
  | none => throw (.unsupported (.integerSize size))

/-- A float of 4, 8 or 16 bytes. -/
def floating (env : Env) (data : Bytes) : ExceptT Error m String :=
  if data.length = 4 then return Floating.single env.order data
  else if data.length = 8 then return Floating.double env.order data
  else if data.length = 16 then
    match env.longDouble with
    | some layout => liftM (LongDouble.textBy slices layout env.order data)
    | none => throw (.unsupported .longDouble)
  else throw (.unsupported (.floatSize data.length))

/-- The first of some bytes. -/
def firstByte (data : Bytes) : ExceptT Error m UInt8 := do
  return (← slices.part data 0 1).headD 0

end

/-- A byte that stands for a truth value or a character. -/
def byteText : Scalar → UInt8 → String
  | .bool, b => decimal b.toNat
  | .char, b => Quoted.char (signExtend b.toUInt64 8).toInt
  | _, b => Quoted.char b.toNat

section

variable {m : Type → Type} [Monad m] (slices : Slices m)

/-- A number. `size` is the size of the type, and the storage is no shorter. -/
def scalarText (env : Env) (name : String) (kind : Scalar) (size : UInt64) (storage : Storage) :
    ExceptT Error m String :=
  match kind, storage with
  | .pointer, .bytes data | .uint, .bytes data => do
    return hex (← unsigned slices env data size).toNat
  | .int, .bytes data => do return signedHex (← signed slices env data size).toInt
  | .pointer, .zeros _ | .uint, .zeros _ | .int, .zeros _ => return hex 0
  | .float, .bytes data => do floating slices env (← slices.part data 0 size.toNat)
  | .complex, .bytes data => do
    let half := size.toNat / 2
    if half ≠ 4 ∧ half ≠ 8 then throw (.unsupported (.complexSize size))
    else
      let re ← floating slices env (← slices.part data 0 half)
      let im ← floating slices env (← slices.part data half half)
      return re ++ " + " ++ im ++ "i"
  | .float, .zeros _ | .complex, .zeros _ => return "0"
  | kind, storage =>
    if size ≠ 1 then throw (.unsupported (.scalarSize size name))
    else
      match storage with
      | .bytes data => do return byteText kind (← firstByte slices data)
      | .zeros _ => return byteText kind 0

/-- The number in an enumeration's storage; a single byte is read unsigned. -/
def enumNumber (env : Env) (size : UInt64) : Storage → ExceptT Error m Int64
  | .zeros _ => return 0
  | .bytes data =>
    if size = 1 then do return (← firstByte slices data).toUInt64.toInt64
    else signed slices env data size

end

/-- The first enumerator of a value, or else the value. -/
def enumText (values : List (String × Int64)) (value : Int64) : String :=
  match values.find? fun (_, v) => v == value with
  | some (name, _) => name
  | none => signedHex value.toInt

def braced (parts : List String) (separator : String) : String :=
  "\x7b" ++ separator.intercalate parts ++ "\x7d"

/-- Wraps a value in its type: `T(v)`, or `(T)(v)` if the name has a space; values in braces need no
parentheses of their own. -/
def labelled (name value : String) : String :=
  let name := if name.toList.contains ' ' then "(" ++ name ++ ")" else name
  if value.toList.head? = some '\x7b' then name ++ value else name ++ "(" ++ value ++ ")"

/-- Where a member lies in a structure of `size` bytes. -/
def memberRange (size : UInt64) (m : Member ValueType) : Except Error (Nat × Nat) :=
  if m.bitSize.isSome then .error (.unsupported (.bitField m.name))
  else
    match m.type.size with
    | none => .error (.unsupported (.incompleteField m.name))
    | some width =>
      if size.toNat < m.offset.toNat + width.toNat then
        .error (.truncated .structField m.offset.toNat width.toNat
          (size.toNat - m.offset.toNat))
      else .ok (m.offset.toNat, width.toNat)

section

variable {m : Type → Type} [Monad m] (slices : Slices m)

mutual

/-- The literal of a value, without the name of its type. -/
def text (env : Env) (storage : Storage) : ValueType → ExceptT Error m String
  | .wrapper _ _ _ inner => text env storage inner
  | .scalar name size kind => do
    let size ← sized (.scalar name size kind) storage.length
    scalarText slices env name kind size storage
  | .enumeration name size values => do
    let size ← sized (.enumeration name size values) storage.length
    return enumText values (← enumNumber slices env size storage)
  | .array name size element count => do
    let _ ← sized (.array name size element count) storage.length
    match element.size with
    | none => throw (.unsupported .incompleteElement)
    | some width =>
      match storage with
      | .zeros _ => return "\x7b0\x7d"
      | .bytes data =>
        if width = 0 then return braced [] ", "
        else
          let chunks ← slices.chunks width.toNat data
          return braced
            (← (chunks.take count.toNat).mapM fun chunk => text env (.bytes chunk) element) ", "
  | .record name size members => do
    let size ← sized (.record name size members) storage.length
    match storage with
    | .zeros _ => return "\x7b0\x7d"
    | .bytes data => return braced (← memberTexts env size data members) "; "

/-- The literals of structure members, with their names and types. -/
def memberTexts (env : Env) (size : UInt64) (data : Bytes) :
    List (Member ValueType) → ExceptT Error m (List String)
  | [] => return []
  | ⟨name, offset, bitSize, type⟩ :: rest => do
    let (start, width) ← memberRange size ⟨name, offset, bitSize, type⟩
    let value ← text env (.bytes (← slices.part data start width)) type
    let first := "." ++ name ++ " = " ++ labelled type.name value
    return first :: (← memberTexts env size data rest)

end

/-- The literal of a value, wrapped in its type if `label`, with parts taken by `slices`. -/
def renderBy (env : Env) (label : Bool) (storage : Storage) (type : ValueType) :
    ExceptT Error m String := do
  let value ← text slices env storage type
  return if label then labelled type.name value else value

end

/-- The literal of a value, wrapped in its type if `label`. -/
def render (env : Env) (label : Bool) (storage : Storage) (type : ValueType) :
    Except Error String :=
  Id.run (renderBy .within env label storage type).run

end MachInspect.Value
