-- SUMMARY: Writing what is read from a nested symbol name.
import MachInspect.Symbols.Demangle.Cursor
import MachInspect.Text.Graphic

/-!
# Writing nested names

A nested name is written while it is read. A fault in the name does not end the writing: it is
shown where it arises, and whatever would have been read after it shows as a question mark. Only
too much text ends the writing early.
-/
namespace MachInspect.Demangle

open Text

structure WriterState where
  /-- The whole name. -/
  name : List Char
  /-- Where reading stands, or why it stopped. -/
  cursor : Except Fault Cursor
  /-- Nothing is written. -/
  silent : Bool
  /-- What has been written, last piece first. -/
  pieces : List String
  /-- Bytes that may still be written. -/
  room : Nat
  /-- Lifetimes that are bound around the current place. -/
  lifetimes : Nat

/-- Writing; it ends early when there is no room left. -/
abbrev Writer (α : Type) := EStateM Unit WriterState α

namespace Writer

def isSilent : Writer Bool := return (← get).silent

def write (text : String) : Writer Unit := do
  let s ← get
  if s.silent then return ()
  else if text.utf8ByteSize ≤ s.room then
    set { s with pieces := text :: s.pieces, room := s.room - text.utf8ByteSize }
  else throw ()

/-- Stops reading and shows why. -/
def fail (fault : Fault) : Writer Unit := do
  write fault.text
  modify fun s => { s with cursor := .error fault }

/-- Reads on. Without a result the reading has stopped, and that has been shown. -/
def read (reading : Reading α) : Writer (Option α) := do
  match (← get).cursor with
  | .error _ =>
    write "?"
    return none
  | .ok c =>
    match reading.run c with
    | .ok (a, c) =>
      modify fun s => { s with cursor := .ok c }
      return some a
    | .error fault =>
      fail fault
      return none

/-- Whether reading goes on. -/
def isReading : Writer Bool := do
  match (← get).cursor with
  | .ok _ => return true
  | .error _ => return false

/-- Passes the given character, if it stands here. -/
def eat (x : Char) : Writer Bool := do
  if ← isReading then return (← read (Reading.eat x)).getD false else return false

/-- Closes a path, type or constant. -/
def leave : Writer Unit :=
  modify fun s => { s with cursor := s.cursor.map fun c => { c with depth := c.depth - 1 } }

/-- Reads without writing. -/
def silently (writer : Writer Unit) : Writer Unit := do
  let silent ← isSilent
  modify fun s => { s with silent := true }
  writer
  modify fun s => { s with silent }

/-- Writes what a reference points to; its mark has just been passed. References are not followed
when nothing is written. -/
def reference (fallback : α) (writer : Writer α) : Writer α := do
  let some target ← read (Reading.reference (← get).name) | return fallback
  if ← isSilent then return fallback
  else
    let cursor := (← get).cursor
    modify fun s => { s with cursor := .ok target }
    let a ← writer
    modify fun s => { s with cursor }
    return a

/-- Items up to the letter that closes a list, and how many there are. `fuel` bounds their
number. -/
def itemsFrom (item : Writer Unit) (separator : String) (count : Nat) : (fuel : Nat) → Writer Nat
  | 0 => return count
  | fuel + 1 => do
    if !(← isReading) then return count
    else if ← eat 'E' then return count
    else
      if 0 < count then write separator
      item
      itemsFrom item separator (count + 1) fuel

/-- A list. Each item takes at least one character of the name. -/
def items (item : Writer Unit) (separator : String) : Writer Nat := do
  itemsFrom item separator 0 ((← get).name.length + 1)

def identifier (name : Identifier) : Writer Unit := name.pieces.forM write

-- ---------------------------------------------------------------------------
-- Lifetimes
-- ---------------------------------------------------------------------------

/-- A lifetime: zero is one without a name, others count from the innermost bound one outwards. -/
def lifetime (index : Nat) : Writer Unit := do
  if ← isSilent then return ()
  else
    write "'"
    if index = 0 then write "_"
    else
      let bound := (← get).lifetimes
      if index ≤ bound then
        let depth := bound - index
        if depth < 26 then write (String.singleton (Char.ofNat ('a'.toNat + depth)))
        else
          write "_"
          write (decimal depth)
      else fail .invalid

/-- The names of `n` lifetimes that are bound here. -/
def boundLifetimes (first : Bool) : (n : Nat) → Writer Unit
  | 0 => return ()
  | n + 1 => do
    if !first then write ", "
    modify fun s => { s with lifetimes := s.lifetimes + 1 }
    lifetime 1
    boundLifetimes false n

/-- Something that may bind lifetimes first. -/
def binding (writer : Writer Unit) : Writer Unit := do
  let some count ← read (Reading.marked62 'G') | return ()
  if ← isSilent then writer
  else
    if 0 < count then
      write "for<"
      boundLifetimes true count
      write "> "
    writer
    modify fun s => { s with lifetimes := s.lifetimes - count }

-- ---------------------------------------------------------------------------
-- Literals
-- ---------------------------------------------------------------------------

/-- The value of hexadecimal digits, if it has at most 64 bits. -/
def hexValue? (digits : List Char) : Option Nat :=
  if (digits.dropWhile (· == '0')).length ≤ 16 then digitsValue? 16 0 digits else none

/-- Characters between quotes. A quote of the other kind needs no escape. -/
def quoted (quote : Char) (text : List Char) : Writer Unit := do
  let plain (c : Char) : Bool :=
    (quote == '\x27' && c == '\x22') || (quote == '\x22' && c == '\x27')
  let letters := text.flatMap fun c => if plain c then [c] else Graphic.escape c
  (quote :: letters ++ [quote]).forM fun c => write (String.singleton c)

/-- An integer; one of more than 64 bits stays hexadecimal. -/
def integer : Writer Unit := do
  let some digits ← read Reading.hexDigits | return ()
  match hexValue? digits with
  | some n => write (decimal n)
  | none =>
    write "0x"
    write (String.ofList digits)

def boolean : Writer Unit := do
  let some digits ← read Reading.hexDigits | return ()
  match hexValue? digits with
  | some 0 => write "false"
  | some 1 => write "true"
  | _ => fail .invalid

def character : Writer Unit := do
  let some digits ← read Reading.hexDigits | return ()
  match hexValue? digits with
  | some n => if n.isValidChar then quoted '\x27' [Char.ofNat n] else fail .invalid
  | none => fail .invalid

/-- The bytes that pairs of hexadecimal digits stand for. -/
def hexBytes? : List Char → Option (List UInt8)
  | [] => some []
  | [_] => none
  | a :: b :: rest => do
    let value ← digitsValue? 16 0 [a, b]
    return UInt8.ofNat value :: (← hexBytes? rest)

/-- A string literal, stored as the bytes of its text. -/
def string : Writer Unit := do
  let some digits ← read Reading.hexDigits | return ()
  match (hexBytes? digits).bind fun bytes => String.fromUTF8? ⟨bytes.toArray⟩ with
  | some text => quoted '\x22' text.toList
  | none => fail .invalid

end Writer

end MachInspect.Demangle
