-- SUMMARY: Quoted strings and characters with C escapes.
import MachInspect.Text.Utf8

/-!
# Quoted text

A string literal shows every printable character as it is and everything else as an escape, bytes
that are not text included. A literal that lacks its closing quote stands for a string that lacks
its terminator.
-/
namespace MachInspect.Text.Quoted

def isControl (c : Char) : Bool := c.toNat < 0x20 || (0x7f ≤ c.toNat && c.toNat < 0xa0)

/-- Unicode's white space. -/
def isBlank (c : Char) : Bool :=
  let n := c.toNat
  (0x9 ≤ n && n ≤ 0xd) || n == 0x20 || n == 0x85 || n == 0xa0 || n == 0x1680
    || (0x2000 ≤ n && n ≤ 0x200a) || n == 0x2028 || n == 0x2029 || n == 0x202f || n == 0x205f
    || n == 0x3000

/-- Shown as it is inside quotes: neither control nor white space, the plain space apart. -/
def isPrintable (c : Char) : Bool := c == ' ' || !(isControl c || isBlank c)

/-- The letter of a one-letter escape. -/
def escapeLetter? (c : Char) : Option Char :=
  match c.toNat with
  | 0x07 => some 'a'
  | 0x08 => some 'b'
  | 0x0c => some 'f'
  | 0x0a => some 'n'
  | 0x0d => some 'r'
  | 0x09 => some 't'
  | 0x0b => some 'v'
  | 0x5c => some '\\'
  | _ => none

def byteEscape (n : Nat) : List Char := '\\' :: 'x' :: paddedDigits 16 2 n

/-- One character inside the quote `quote`. -/
def escape (quote c : Char) : List Char :=
  match escapeLetter? c with
  | some letter => ['\\', letter]
  | none =>
    if c = quote then ['\\', c]
    else if isPrintable c then [c]
    else if c.toNat < 0x80 then byteEscape c.toNat
    else if c.toNat < 0x10000 then '\\' :: 'u' :: paddedDigits 16 4 c.toNat
    else '\\' :: 'U' :: paddedDigits 16 8 c.toNat

def doubleQuote : Char := '\x22'

def singleQuote : Char := '\x27'

def pieceText : Utf8.Piece → List Char
  | .char c => escape doubleQuote c
  | .broken bytes => bytes.flatMap fun b => byteEscape b.toNat

/-- The opening quote and the escaped text. -/
def opened (data : Bytes) : List Char := doubleQuote :: (Utf8.pieces data).flatMap pieceText

/-- A string literal in double quotes. -/
def string (data : Bytes) : String := String.ofList (opened data ++ [doubleQuote])

/-- A character literal in single quotes. Values that are no character show as `U+FFFD`. -/
def char (value : Int) : String :=
  let c := if 0 ≤ value ∧ value.toNat.isValidChar then Char.ofNat value.toNat else Char.ofNat 0xfffd
  String.ofList (singleQuote :: escape singleQuote c ++ [singleQuote])

/-- The literal of the NUL-terminated string at the start of `data`, and the bytes it takes with
its NUL. Without a NUL all of `data` is taken and the closing quote is left out. -/
def terminated (data : Bytes) : String × Nat :=
  let text := data.takeWhile (· ≠ 0)
  if text.length < data.length then (string text, text.length + 1)
  else (String.ofList (opened data), data.length)

end MachInspect.Text.Quoted
