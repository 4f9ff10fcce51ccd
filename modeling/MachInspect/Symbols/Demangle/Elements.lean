-- SUMMARY: Symbol names that are a row of elements with their lengths.
import MachInspect.Text.Numeral
import MachInspect.Text.Quoted

/-!
# Names as rows of elements

Each element of the path is written with its length in front, and an `E` closes the row. Special
characters are spelled between dollar signs, and the last element is a hash.
-/
namespace MachInspect.Demangle

open Text

/-- Elements up to the closing `E`, and what follows it. Each element is its length in decimal and
that many characters. -/
def elements? (cs : List Char) : Option (List (List Char) × List Char) :=
  match cs with
  | [] => none
  | c :: rest =>
    if c = 'E' then some ([], rest)
    else if c.isDigit then
      let digits := (c :: rest).takeWhile Char.isDigit
      let after := rest.drop (digits.length - 1)
      let length := (digitsValue? 10 0 digits).getD 0
      if after.length ≤ length then none
      else
        (elements? (after.drop length)).map fun (elements, tail) =>
          (after.take length :: elements, tail)
    else none
termination_by cs.length
decreasing_by simp only [List.length_drop, List.length_cons]; omega

/-- The hash that ends a path: an `h` and hexadecimal digits. -/
def isHash : List Char → Bool
  | 'h' :: rest => rest.all fun c => (digitValue? 16 c).isSome
  | _ => false

/-- The character that an escape between dollar signs stands for. -/
def escaped? (escape : List Char) : Option Char :=
  match String.ofList escape with
  | "SP" => some '@'
  | "BP" => some '*'
  | "RF" => some '&'
  | "LT" => some '<'
  | "GT" => some '>'
  | "LP" => some '('
  | "RP" => some ')'
  | "C" => some ','
  | _ =>
    match escape with
    | 'u' :: digits =>
      if digits.all fun c => c.isDigit || ('a' ≤ c && c ≤ 'f') then
        match unsigned? 16 (2 ^ 32) digits with
        | some n =>
          if n.isValidChar ∧ !Quoted.isControl (Char.ofNat n) then some (Char.ofNat n) else none
        | none => none
      else none
    | _ => none

/-- An element with its escapes undone. At the first escape that stands for nothing the rest is
taken as it is. -/
def unescape (cs : List Char) : List Char :=
  match cs with
  | [] => []
  | '.' :: '.' :: rest => ':' :: ':' :: unescape rest
  | '$' :: rest =>
    let escape := rest.takeWhile (· ≠ '$')
    if escape.length < rest.length then
      match escaped? escape with
      | some c => c :: unescape (rest.drop (escape.length + 1))
      | none => cs
    else cs
  | c :: rest => c :: unescape rest
termination_by cs.length
decreasing_by all_goals simp only [List.length_cons, List.length_drop]; omega

def elementText : List Char → List Char
  | '_' :: '$' :: rest => unescape ('$' :: rest)
  | cs => unescape cs

/-- The path without its hash. -/
def joined (elements : List (List Char)) : String :=
  let shown := match elements.getLast? with
    | some last => if isHash last then elements.dropLast else elements
    | none => elements
  "::".intercalate (shown.map fun e => String.ofList (elementText e))

/-- The path in a name without its mark, and what follows its `E`. -/
def flat? (name : List Char) : Option (String × List Char) := do
  if name.all fun c => c.toNat < 0x80 then
    let (elements, tail) ← elements? name
    return (joined elements, tail)
  else none

end MachInspect.Demangle
