-- SUMMARY: Reading the characters, numbers and identifiers of nested symbol names.
import MachInspect.Text.Numeral
import MachInspect.Text.Punycode

/-!
# Reading nested names

A nested name is read from left to right; a reference goes back to something that stands earlier
in the name. Nesting has a limit.
-/
namespace MachInspect.Demangle

open Text

/-- Why a name cannot be read on. -/
inductive Fault where
  | invalid
  | tooDeep
  deriving DecidableEq, Repr

/-- What is shown where reading stops. -/
def Fault.text : Fault → String
  | .invalid => "\x7binvalid syntax\x7d"
  | .tooDeep => "\x7brecursion limit reached\x7d"

/-- A place in a name. -/
structure Cursor where
  position : Nat
  /-- What stands at the position and after it. -/
  rest : List Char
  /-- How many paths, types and constants are open. -/
  depth : Nat
  deriving DecidableEq, Repr

/-- Reading that moves on in a name. -/
abbrev Reading (α : Type) := StateT Cursor (Except Fault) α

/-- An identifier: its ASCII characters, and the code for the others, which is empty if there are
none. -/
structure Identifier where
  ascii : List Char
  code : List Char
  deriving DecidableEq, Repr

namespace Identifier

def isEmpty (name : Identifier) : Bool := name.ascii.isEmpty && name.code.isEmpty

/-- The pieces of text that an identifier is written as. A code that cannot be decoded is shown. -/
def pieces (name : Identifier) : List String :=
  if name.code.isEmpty then [String.ofList name.ascii]
  else
    match Punycode.decode? name.ascii name.code with
    | some text => text.map String.singleton
    | none =>
      let ascii := if name.ascii.isEmpty then [] else [String.ofList name.ascii, "-"]
      ["punycode\x7b"] ++ ascii ++ [String.ofList name.code, "\x7d"]

end Identifier

namespace Cursor

/-- The place `n` characters after the start of a name. -/
def atOffset (name : List Char) (n depth : Nat) : Cursor := ⟨n, name.drop n, depth⟩

end Cursor

namespace Reading

/-- Opens a path, type or constant. -/
def enter : Reading Unit := do
  let c ← get
  if c.depth < 500 then set { c with depth := c.depth + 1 } else throw .tooDeep

def next : Reading Char := do
  let c ← get
  match c.rest with
  | [] => throw .invalid
  | x :: rest =>
    set { c with position := c.position + 1, rest }
    return x

/-- Passes the given character, if it stands here. -/
def eat (x : Char) : Reading Bool := do
  if (← get).rest.head? = some x then
    discard next
    return true
  else return false

/-- Goes back over the character that was just passed. -/
def back (x : Char) : Reading Unit :=
  modify fun c => { c with position := c.position - 1, rest := x :: c.rest }

/-- The next `n` characters. -/
def take (n : Nat) : Reading (List Char) := do
  let c ← get
  if n ≤ c.rest.length then
    set { c with position := c.position + n, rest := c.rest.drop n }
    return c.rest.take n
  else throw .invalid

/-- The characters up to the first that `p` refuses. -/
def span (p : Char → Bool) : Reading (List Char) := do take ((← get).rest.takeWhile p).length

-- ---------------------------------------------------------------------------
-- Numbers
-- ---------------------------------------------------------------------------

/-- Numbers have 64 bits. -/
def bounded (n : Nat) : Reading Nat := if n < 2 ^ 64 then pure n else throw .invalid

/-- The value of a digit in base 62: digits, lower case, upper case. -/
def digit62? (c : Char) : Option Nat :=
  if c.isDigit then some (c.toNat - '0'.toNat)
  else if 'a' ≤ c ∧ c ≤ 'z' then some (c.toNat - 'a'.toNat + 10)
  else if 'A' ≤ c ∧ c ≤ 'Z' then some (c.toNat - 'A'.toNat + 36)
  else none

/-- A number in base 62, closed by an underscore; the bare underscore is zero. -/
def number62 : Reading Nat := do
  if ← eat '_' then return 0
  else
    let digits ← span fun c => (digit62? c).isSome
    if ← eat '_' then
      bounded (digits.foldl (fun acc d => acc * 62 + (digit62? d).getD 0) 0 + 1)
    else throw .invalid

/-- A number behind a mark; zero if the mark is not there. -/
def marked62 (mark : Char) : Reading Nat := do
  if ← eat mark then bounded ((← number62) + 1) else return 0

/-- What tells items of one name apart. -/
def disambiguator : Reading Nat := marked62 's'

/-- Lower-case hexadecimal digits up to an underscore. -/
def hexDigits : Reading (List Char) := do
  let digits ← span fun c => c.isDigit || ('a' ≤ c && c ≤ 'f')
  if ← eat '_' then return digits else throw .invalid

-- ---------------------------------------------------------------------------
-- Names
-- ---------------------------------------------------------------------------

/-- The kind of a nested item: an upper-case letter for items that have no name of their own, such
as closures. -/
def itemKind : Reading (Option Char) := do
  let c ← next
  if 'A' ≤ c ∧ c ≤ 'Z' then return some c
  else if 'a' ≤ c ∧ c ≤ 'z' then return none
  else throw .invalid

/-- The ASCII part and the code of the text of an identifier: the code follows the last
underscore. -/
def splitCode (text : List Char) : Identifier :=
  let code := (text.reverse.takeWhile (· ≠ '_')).reverse
  ⟨text.take (text.length - code.length - 1), code⟩

/-- An identifier: a mark if it has a code, its length in decimal, an optional underscore, and the
characters. A zero stands alone. -/
def identifier : Reading Identifier := do
  let hasCode ← eat 'u'
  let first ← next
  if !first.isDigit then throw .invalid
  let more ← if first = '0' then pure [] else span Char.isDigit
  let length ← bounded ((digitsValue? 10 0 (first :: more)).getD 0)
  discard (eat '_')
  let text ← take length
  if hasCode then
    let name := splitCode text
    if name.code.isEmpty then throw .invalid else return name
  else return ⟨text, []⟩

/-- A reference to an earlier place of `name`; its mark has just been passed. -/
def reference (name : List Char) : Reading Cursor := do
  let c ← get
  let target ← number62
  if target + 1 < c.position then
    let ((), there) ← enter.run (Cursor.atOffset name target c.depth)
    return there
  else throw .invalid

end Reading

end MachInspect.Demangle
