-- SUMMARY: Symbol names that nest paths, types and constants.
import MachInspect.Symbols.Demangle.Writer

/-!
# Nested names

A nested name starts with `_R` and holds the path of an item. A path is a crate, an item in a path,
a member of an implementation, or a path with generic arguments, which are lifetimes, types and
constants; types and constants hold paths in turn. A letter tells what comes next.
-/
namespace MachInspect.Demangle

open Text Writer

/-- Types that are written as one letter. -/
def basicTypes : List (Char × String) :=
  [('a', "i8"), ('b', "bool"), ('c', "char"), ('d', "f64"), ('e', "str"), ('f', "f32"), ('h', "u8"),
   ('i', "isize"), ('j', "usize"), ('l', "i32"), ('m', "u32"), ('n', "i128"), ('o', "u128"),
   ('p', "_"), ('s', "i16"), ('t', "u16"), ('u', "()"), ('v', "..."), ('x', "i64"), ('y', "u64"),
   ('z', "!")]

/-- The name of a calling convention: dashes are stored as underscores. -/
def callingConvention (name : List Char) : String :=
  String.ofList (name.map fun c => if c = '_' then '-' else c)

/-- An item in a path. Items without a name of their own show their kind and number in braces. -/
def nestedItem (kind : Option Char) (copy : Nat) (name : Identifier) : Writer Unit := do
  match kind with
  | some kind =>
    write "::\x7b"
    write (match kind with
      | 'C' => "closure"
      | 'S' => "shim"
      | c => String.singleton c)
    if !name.isEmpty then
      write ":"
      identifier name
    write "#"
    write (decimal copy)
    write "\x7d"
  | none =>
    if !name.isEmpty then
      write "::"
      identifier name

/-- The convention of a function type, if it is not the usual one. -/
def functionConvention : Writer (Option (Option String)) := do
  if ← eat 'K' then
    if ← eat 'C' then return some (some "C")
    else
      let some name ← read Reading.identifier | return none
      if name.ascii.isEmpty ∨ !name.code.isEmpty then
        fail .invalid
        return none
      else return some (some (callingConvention name.ascii))
  else return some none

-- ---------------------------------------------------------------------------
-- Parts that hold other parts
-- ---------------------------------------------------------------------------

/-- A type as a trait sees it. -/
def traitMember (type trait : Writer Unit) : Writer Unit := do
  write "<"
  type
  write " as "
  trait
  write ">"

/-- A reference type: a lifetime, if it has a name, and what is referred to. -/
def referenceType (mutability : String) (type : Writer Unit) : Writer Unit := do
  write "&"
  if ← eat 'L' then
    let some index ← read Reading.number62 | return ()
    if index ≠ 0 then
      lifetime index
      write " "
  write mutability
  type

/-- A function type; an empty result is left out. -/
def functionType (type : Writer Unit) : Writer Unit := do
  let isUnsafe ← eat 'U'
  let some convention ← functionConvention | return ()
  if isUnsafe then write "unsafe "
  match convention with
  | some name =>
    write "extern \""
    write name
    write "\" "
  | none => pure ()
  write "fn("
  discard (items type ", ")
  write ")"
  if !(← eat 'u') then
    write " -> "
    type

/-- A trait object: its traits, and a lifetime if it has a name. -/
def traitObject (trait : Writer Unit) : Writer Unit := do
  write "dyn "
  binding (discard (items trait " + "))
  if ← eat 'L' then
    let some index ← read Reading.number62 | return ()
    if index ≠ 0 then
      write " + "
      lifetime index
  else fail .invalid

/-- What the associated types and constants of a trait are bound to. They join the generic arguments,
whose list may be open. Nothing results if reading stops at a name. -/
def associatedItems (value : Writer Unit) (isOpen : Bool) : (fuel : Nat) → Writer (Option Bool)
  | 0 => return some isOpen
  | fuel + 1 => do
    if ← eat 'p' then
      write (if isOpen then ", " else "<")
      let some name ← read Reading.identifier | return none
      identifier name
      write " = "
      value
      associatedItems value true fuel
    else return some isOpen

/-- A trait and its associated types and constants. -/
def boundTrait (trait : Writer Bool) (value : Writer Unit) : Writer Unit := do
  let isOpen ← trait
  match ← associatedItems value isOpen ((← get).name.length + 1) with
  | some true => write ">"
  | _ => return ()

/-- A list in parentheses; with a single item it needs a comma to be a tuple. -/
def tuple (item : Writer Unit) : Writer Unit := do
  write "("
  if (← items item ", ") = 1 then write ","
  write ")"

/-- A constant that needs braces when it stands among generic arguments. They stay open if reading
stops within it. -/
def braced (inValue : Bool) (writer : Writer Bool) : Writer Unit := do
  if inValue then discard writer
  else
    write "\x7b"
    if ← writer then write "\x7d"

/-- The fields of a value: none, by position or by name. -/
def fields (constant : Writer Unit) : Writer Bool := do
  let named : Writer Unit := do
    let some _ ← read Reading.disambiguator | return ()
    let some name ← read Reading.identifier | return ()
    identifier name
    write ": "
    constant
  let some shape ← read Reading.next | return false
  match shape with
  | 'U' => return true
  | 'T' =>
    write "("
    discard (items constant ", ")
    write ")"
    return true
  | 'S' =>
    write " \x7b "
    discard (items named ", ")
    write " \x7d"
    return true
  | _ =>
    fail .invalid
    return false

-- ---------------------------------------------------------------------------
-- Paths, types and constants
-- ---------------------------------------------------------------------------

mutual

/-- A path. In a value, generic arguments stand behind a double colon. `fuel` bounds the nesting;
the limit of the depth is reached before it runs out. -/
def path (inValue : Bool) : (fuel : Nat) → Writer Unit
  | 0 => fail .tooDeep
  | fuel + 1 => do
    let some () ← read Reading.enter | return ()
    let some tag ← read Reading.next | return ()
    match tag with
    | 'C' =>
      let some _ ← read Reading.disambiguator | return ()
      let some name ← read Reading.identifier | return ()
      identifier name
    | 'N' =>
      let some kind ← read Reading.itemKind | return ()
      path inValue fuel
      if !(← isReading) then write "::"
      let some copy ← read Reading.disambiguator | return ()
      let some name ← read Reading.identifier | return ()
      nestedItem kind copy name
    | 'M' =>
      let some _ ← read Reading.disambiguator | return ()
      silently (path false fuel)
      write "<"
      type fuel
      write ">"
    | 'X' =>
      let some _ ← read Reading.disambiguator | return ()
      silently (path false fuel)
      traitMember (type fuel) (path false fuel)
    | 'Y' => traitMember (type fuel) (path false fuel)
    | 'I' =>
      path inValue fuel
      if inValue then write "::"
      write "<"
      discard (items (genericArgument fuel) ", ")
      write ">"
    | 'B' => reference () (path inValue fuel)
    | _ => fail .invalid
    leave

/-- A lifetime, a constant or a type. -/
def genericArgument : (fuel : Nat) → Writer Unit
  | 0 => fail .tooDeep
  | fuel + 1 => do
    if ← eat 'L' then
      let some index ← read Reading.number62 | return ()
      lifetime index
    else if ← eat 'K' then constant false fuel
    else type fuel

/-- What an associated item is bound to: a constant or a type. -/
def associatedValue : (fuel : Nat) → Writer Unit
  | 0 => fail .tooDeep
  | fuel + 1 => do
    if ← eat 'K' then constant false fuel else type fuel

/-- A type, which may be marked as spread over several arguments. -/
def type : (fuel : Nat) → Writer Unit
  | 0 => fail .tooDeep
  | fuel + 1 => do
    if ← eat 'w' then write "#[splat] "
    let some tag ← read Reading.next | return ()
    match basicTypes.lookup tag with
    | some name => write name
    | none =>
      let some () ← read Reading.enter | return ()
      match tag with
      | 'R' => referenceType "" (type fuel)
      | 'Q' => referenceType "mut " (type fuel)
      | 'P' =>
        write "*"
        write "const "
        type fuel
      | 'O' =>
        write "*"
        write "mut "
        type fuel
      | 'A' =>
        write "["
        type fuel
        write "; "
        constant true fuel
        write "]"
      | 'S' =>
        write "["
        type fuel
        write "]"
      | 'T' => tuple (type fuel)
      | 'F' => binding (functionType (type fuel))
      | 'D' => traitObject (boundTrait (openPath fuel) (associatedValue fuel))
      | 'B' => reference () (type fuel)
      | 'W' =>
        type fuel
        write " is "
        pattern fuel
      | _ =>
        discard (read (Reading.back tag))
        path false fuel
      leave

/-- A path whose list of generic arguments is left open; whether it has one. -/
def openPath : (fuel : Nat) → Writer Bool
  | 0 => do
    fail .tooDeep
    return false
  | fuel + 1 => do
    if ← eat 'B' then reference false (openPath fuel)
    else if ← eat 'I' then
      path false fuel
      write "<"
      discard (items (genericArgument fuel) ", ")
      return true
    else
      path false fuel
      return false

/-- What the values of a type are restricted to: ranges, all but null, and alternatives, of which
there is at least one. Alternatives that are not closed are a fault of their own, which is shown after
the one that stopped the reading. -/
def pattern : (fuel : Nat) → Writer Unit
  | 0 => fail .tooDeep
  | fuel + 1 => do
    let some tag ← read Reading.next | return ()
    match tag with
    | 'R' =>
      constant false fuel
      write "..="
      constant false fuel
    | 'O' =>
      let some () ← read Reading.enter | return ()
      pattern fuel
      discard (items (do write " | "; pattern fuel) "")
      if ← isReading then leave else fail .invalid
    | 'N' => write "!null"
    | _ => fail .invalid

/-- A constant. Among generic arguments, all but literals stand in braces. -/
def constant (inValue : Bool) : (fuel : Nat) → Writer Unit
  | 0 => fail .tooDeep
  | fuel + 1 => do
    let some tag ← read Reading.next | return ()
    let some () ← read Reading.enter | return ()
    let inner := constant true fuel
    match tag with
    | 'p' => write "_"
    | 'h' | 't' | 'm' | 'y' | 'o' | 'j' => integer
    | 'a' | 's' | 'l' | 'x' | 'n' | 'i' =>
      if ← eat 'n' then write "-"
      integer
    | 'b' => boolean
    | 'c' => character
    | 'e' => braced inValue do
      write "*"
      string
      return true
    | 'R' =>
      if ← eat 'e' then string
      else braced inValue do
        write "&"
        inner
        return true
    | 'Q' => braced inValue do
      write "&"
      write "mut "
      inner
      return true
    | 'A' => braced inValue do
      write "["
      discard (items inner ", ")
      write "]"
      return true
    | 'T' => braced inValue do
      tuple inner
      return true
    | 'V' => braced inValue do
      path true fuel
      fields inner
    | 'B' => reference () (constant inValue fuel)
    | _ => fail .invalid
    leave

end

-- ---------------------------------------------------------------------------
-- Names
-- ---------------------------------------------------------------------------

/-- Paths, types and constants nest at most 500 deep, and at most three functions are at work on
each level. -/
def fuelLimit : Nat := 4 * 501

/-- Text of more bytes is cut. -/
def textLimit : Nat := 1000000

def WriterState.start (name : List Char) (position : Nat) (silent : Bool) : WriterState where
  name
  cursor := .ok (Cursor.atOffset name position 0)
  silent
  pieces := []
  room := textLimit
  lifetimes := 0

/-- Where the path at a position ends, if it can be read. References are not looked into. -/
def pathEnd? (name : List Char) (position : Nat) : Option Nat :=
  match (path false fuelLimit).run (.start name position true) with
  | .ok _ s =>
    match s.cursor with
    | .ok c => some c.position
    | .error _ => none
  | .error _ _ => none

/-- The text of the path at the start of a name. -/
def pathText (name : List Char) : String :=
  match (path true fuelLimit).run (.start name 0 false) with
  | .ok _ s => String.join s.pieces.reverse
  | .error _ s => String.join s.pieces.reverse ++ "\x7bsize limit reached\x7d"

def isUpper (c : Char) : Bool := 'A' ≤ c && c ≤ 'Z'

/-- The path in a nested name without its mark, and what follows it. The path of the crate that the
item was made for may come next; it is left out. -/
def nested? (name : List Char) : Option (String × List Char) := do
  if name.all fun c => c.toNat < 0x80 then
    let first ← pathEnd? name 0
    let last ← match name.drop first with
      | c :: _ => if isUpper c then pathEnd? name first else some first
      | [] => some first
    return (pathText name, name.drop last)
  else none

end MachInspect.Demangle
