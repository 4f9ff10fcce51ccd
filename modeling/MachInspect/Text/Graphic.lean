-- SUMMARY: Characters that are written as escapes inside quotes because they have no shape of their own.
import MachInspect.Text.Combining
import MachInspect.Text.Hex
import MachInspect.Text.Unseen

/-!
# Graphic characters

A character is graphic if it can be shown by itself: it leaves a mark, or is the space, and does not
combine with the character before it.
-/
namespace MachInspect.Text.Graphic

/-- Whether a code point lies in one of some ranges. -/
def within (ranges : List (Nat × Nat)) (n : Nat) : Bool :=
  ranges.any fun (first, last) => first ≤ n && n ≤ last

def isGraphic (c : Char) : Bool :=
  let n := c.toNat
  if n < 0x80 then 0x20 ≤ n && n ≠ 0x7f else !within unseen n && !within combining n

/-- A character as it stands in a literal: common control characters, quotes and the backslash have
short escapes, and what is not graphic shows its number. -/
def escape (c : Char) : List Char :=
  match c.toNat with
  | 0x00 => ['\\', '0']
  | 0x09 => ['\\', 't']
  | 0x0a => ['\\', 'n']
  | 0x0d => ['\\', 'r']
  | 0x22 | 0x27 | 0x5c => ['\\', c]
  | n => if isGraphic c then [c] else "\\u\x7b".toList ++ Nat.toDigits 16 n ++ ['\x7d']

end MachInspect.Text.Graphic
