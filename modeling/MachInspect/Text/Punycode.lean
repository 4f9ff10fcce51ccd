-- SUMMARY: Text whose characters beyond ASCII are stored as insertions.

/-!
# Punycode

A text is split into its ASCII characters and a code for the others. The code is a row of numbers;
each says how many steps to go on, where a step moves to the next place in the text and, past its
end, to the next character. Numbers have digits in base 36, lowest first, and the digit that ends
a number is told by a threshold that adapts to the numbers before.
-/
namespace MachInspect.Text.Punycode

/-- The value of a digit: letters, then decimal digits. -/
def digit? (c : Char) : Option Nat :=
  if 'a' ≤ c ∧ c ≤ 'z' then some (c.toNat - 'a'.toNat)
  else if c.isDigit then some (c.toNat - '0'.toNat + 26)
  else none

/-- A digit below its threshold ends a number. -/
def threshold (k bias : Nat) : Nat := min (max (k - bias) 1) 26

/-- Numbers stay below this bound. -/
def wordBound : Nat := 2 ^ 64

def bounded? (n : Nat) : Option Nat := if n < wordBound then some n else none

/-- A number from its digit at `k` on, which counts `weight`; `acc` is what precedes it. -/
def number? (bias k weight acc : Nat) : List Char → Option (Nat × List Char)
  | [] => none
  | c :: rest => do
    let d ← digit? c
    let acc ← bounded? (acc + (← bounded? (d * weight)))
    let t := threshold k bias
    if d < t then return (acc, rest)
    else number? bias (k + 36) (← bounded? (weight * (36 - t))) acc rest

theorem length_of_number? {bias k weight acc n : Nat} {code rest : List Char}
    (h : number? bias k weight acc code = some (n, rest)) : rest.length < code.length := by
  induction code generalizing k weight acc with
  | nil => simp [number?] at h
  | cons c cs ih =>
    simp only [number?, Option.bind_eq_bind, Option.bind_eq_some_iff] at h
    obtain ⟨d, _, p, _, acc, _, h⟩ := h
    split at h
    · simp only [pure, Option.some.injEq, Prod.mk.injEq] at h
      simp [← h.2]
    · obtain ⟨w, _, h⟩ := Option.bind_eq_some_iff.1 h
      exact Nat.lt_succ_of_lt (ih h)

/-- Divides until the number is small; `k` counts the divisions. -/
def scaled (delta k : Nat) : Nat × Nat :=
  if h : 455 < delta then scaled (delta / 35) (k + 36) else (delta, k)
termination_by delta
decreasing_by omega

/-- The bias after a number, for a text of `length` characters. -/
def adapt (delta damp length : Nat) : Nat :=
  let delta := delta / damp
  let (delta, k) := scaled (delta + delta / length) 0
  k + 36 * delta / (delta + 38)

/-- Inserts characters into `text` as the rest of the code says. -/
def insertAll (text : List Char) (place code bias damp : Nat) (cs : List Char) :
    Option (List Char) :=
  match h : number? bias 36 1 0 cs with
  | none => none
  | some (delta, rest) => do
    let length := text.length + 1
    let steps ← bounded? (place + delta)
    let code ← bounded? (code + steps / length)
    if code.isValidChar then
      let place := steps % length
      let text := text.take place ++ Char.ofNat code :: text.drop place
      if rest.isEmpty then return text
      else insertAll text (place + 1) code (adapt delta damp length) 2 rest
    else none
termination_by cs.length
decreasing_by exact length_of_number? h

/-- The longest text that is decoded. -/
def lengthLimit : Nat := 128

/-- The text with the given ASCII characters and code. -/
def decode? (ascii code : List Char) : Option (List Char) := do
  let text ← insertAll ascii 0 0x80 72 700 code
  if text.length ≤ lengthLimit then some text else none

end MachInspect.Text.Punycode
