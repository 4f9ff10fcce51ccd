-- SUMMARY: String literals have a quote at either end and no other, and can be read back.
import MachInspect.Proofs.Text.Numerals
import MachInspect.Proofs.Text.Spelling
import MachInspect.Text.Quoted

/-!
# String literals

Inside a literal every character is visible, and no quote stands without a backslash (`bareQuotes`).
`Spells` reads escaped text back, one character or escape at a time, and so a literal shows one byte
string only, whether or not its closing quote is there.
-/
namespace MachInspect.Text.Quoted

/-! ## Forms of a character -/

section Forms

variable {c : Char}

/-- Neither control nor white space, the plain space apart. -/
def Shown (c : Char) : Prop := isControl c = false ∧ (isBlank c = true → c = ' ')

instance (c : Char) : Decidable (Shown c) := inferInstanceAs (Decidable (_ ∧ _))

/-- Letters that stand for a character after a backslash. -/
def letters : List Char := ['a', 'b', 'f', 'n', 'r', 't', 'v', '\\', doubleQuote]

/-- The character that a backslash and a letter stand for. -/
def letterChar (letter : Char) : Char :=
  match letter with
  | 'a' => Char.ofNat 0x07
  | 'b' => Char.ofNat 0x08
  | 'f' => Char.ofNat 0x0c
  | 'n' => Char.ofNat 0x0a
  | 'r' => Char.ofNat 0x0d
  | 't' => Char.ofNat 0x09
  | 'v' => Char.ofNat 0x0b
  | other => other

/-- Letters that digits follow after a backslash, and how many. -/
def marks : List (Char × Nat) := [('x', 2), ('u', 4), ('U', 8)]

/-- How a character is written in a string literal. -/
inductive Form (c : Char) : List Char → Prop where
  | plain : Shown c → c ≠ '\\' → c ≠ doubleQuote → Form c [c]
  | letter (letter : Char) : letter ∈ letters → letterChar letter = c → Form c ['\\', letter]
  /-- Two digits are only used below `0x80`, where a character is its one byte. -/
  | number (mark : Char) (width : Nat) : (mark, width) ∈ marks → c.toNat < 16 ^ width →
      (mark = 'x' → c.toNat < 0x80) → Form c ('\\' :: mark :: paddedDigits 16 width c.toNat)

theorem shown_of_isPrintable (h : isPrintable c = true) : Shown c := by
  rcases Bool.or_eq_true_iff.mp h with hspace | hshown
  · obtain rfl : c = ' ' := by simpa using hspace
    decide
  · obtain ⟨hcontrol, hblank⟩ : isControl c = false ∧ isBlank c = false := by simpa using hshown
    exact ⟨hcontrol, fun h => absurd (hblank.symm.trans h) (by decide)⟩

theorem letterChar_of_escapeLetter? {letter : Char} (h : escapeLetter? c = some letter) :
    letter ∈ letters ∧ letterChar letter = c := by
  rw [← Char.ofNat_toNat c]
  unfold escapeLetter? at h
  split at h
  case h_9 => exact absurd h (by simp)
  all_goals
    rename_i hc
    obtain rfl := Option.some.inj h
    rw [hc]
    decide

theorem toNat_lt (c : Char) : c.toNat < 0x110000 := by
  rcases c.valid with hlow | hhigh
  · exact Nat.lt_trans hlow (by decide)
  · exact hhigh.2

/-- Every character is written in one of the forms. -/
theorem form_escape (c : Char) : Form c (escape doubleQuote c) := by
  unfold escape
  cases hletter : escapeLetter? c with
  | some letter =>
    obtain ⟨hmem, hchar⟩ := letterChar_of_escapeLetter? hletter
    exact .letter letter hmem hchar
  | none =>
    have hbackslash : c ≠ '\\' := by
      rintro rfl
      exact absurd hletter (by decide)
    have hlast := toNat_lt c
    dsimp only
    split_ifs with hquote hprintable hbyte hshort
    · subst hquote
      exact .letter doubleQuote (by decide) rfl
    · exact .plain (shown_of_isPrintable hprintable) hbackslash hquote
    · exact .number 'x' 2 (by decide) (by omega) fun _ => hbyte
    · exact .number 'u' 4 (by decide) hshort fun hmark => absurd hmark (by decide)
    · exact .number 'U' 8 (by decide) (by omega) fun hmark => absurd hmark (by decide)

end Forms

/-! ## Visible characters -/

section Visible

variable {c mark : Char} {width : Nat} {text : List Char}

theorem shown_of_mem_paddedDigits {n : Nat} (h : c ∈ paddedDigits 16 width n) :
    Shown c ∧ c ≠ '\\' ∧ c ≠ doubleQuote := by
  obtain ⟨d, hd, rfl⟩ := exists_of_mem_paddedDigits (by decide) h
  have hall : ∀ d < 16, Shown (Nat.digitChar d) ∧ Nat.digitChar d ≠ '\\' ∧
      Nat.digitChar d ≠ doubleQuote := by decide
  exact hall d hd

theorem shown_number (hmark : (mark, width) ∈ marks) (n : Nat) :
    ∀ ch ∈ '\\' :: mark :: paddedDigits 16 width n, Shown ch := by
  have hall : ∀ p ∈ marks, Shown p.1 := by decide
  have hdigits : ∀ ch ∈ paddedDigits 16 width n, Shown ch :=
    fun ch hch => (shown_of_mem_paddedDigits hch).1
  simpa using ⟨by decide, hall _ hmark, hdigits⟩

theorem shown_letters : letters.all (Shown ·) = true := by decide

theorem Form.shown (h : Form c text) : ∀ ch ∈ text, Shown ch := by
  cases h with
  | plain hshown _ _ => simpa using hshown
  | letter letter hmem _ =>
    have hletter : Shown letter := by simpa using List.all_eq_true.mp shown_letters letter hmem
    simpa using ⟨by decide, hletter⟩
  | number mark width hmark _ _ => exact shown_number hmark c.toNat

theorem shown_pieceText (piece : Utf8.Piece) : ∀ ch ∈ pieceText piece, Shown ch := by
  cases piece with
  | char c => exact (form_escape c).shown
  | broken bytes =>
    intro ch hch
    obtain ⟨b, -, hb⟩ := List.mem_flatMap.mp hch
    exact shown_number (by decide) b.toNat ch hb

theorem shown_opened (data : Bytes) : ∀ ch ∈ opened data, Shown ch := by
  intro ch hch
  rcases List.mem_cons.mp hch with rfl | htext
  · decide
  · obtain ⟨piece, -, hpiece⟩ := List.mem_flatMap.mp htext
    exact shown_pieceText piece ch hpiece

end Visible

/-! ## Quotes -/

section Quotes

variable {c mark : Char} {width : Nat} {text front back : List Char}

/-- Positions of the double quotes that are not part of an escape, counted from `k`. A backslash
makes an escape with the character after it. -/
def bareQuotes (k : Nat) : List Char → List Nat
  | [] => []
  | '\\' :: _ :: rest => bareQuotes (k + 2) rest
  | c :: rest => if c = doubleQuote then k :: bareQuotes (k + 1) rest else bareQuotes (k + 1) rest

/-- Whole characters and escapes without a bare quote: what follows is read as if it stood alone. -/
def Quoteless (text : List Char) : Prop :=
  ∀ (k : Nat) (rest : List Char), bareQuotes k (text ++ rest) = bareQuotes (k + text.length) rest

theorem quoteless_nil : Quoteless [] := fun _ _ => rfl

theorem Quoteless.append (hfront : Quoteless front) (hback : Quoteless back) :
    Quoteless (front ++ back) := by
  intro k rest
  rw [List.append_assoc, hfront, hback, List.length_append, Nat.add_assoc]

theorem Quoteless.flatMap {α : Type} {f : α → List Char} (h : ∀ a, Quoteless (f a)) (l : List α) :
    Quoteless (l.flatMap f) := by
  induction l with
  | nil => exact quoteless_nil
  | cons a l ih =>
    rw [List.flatMap_cons]
    exact (h a).append ih

theorem bareQuotes_cons (hc : c ≠ '\\') (k : Nat) (rest : List Char) :
    bareQuotes k (c :: rest) =
      if c = doubleQuote then k :: bareQuotes (k + 1) rest else bareQuotes (k + 1) rest := by
  rw [bareQuotes]
  intro c' rest' hbackslash
  exact absurd hbackslash hc

theorem quoteless_plain (h : ∀ c ∈ text, c ≠ '\\' ∧ c ≠ doubleQuote) : Quoteless text := by
  induction text with
  | nil => exact quoteless_nil
  | cons c text ih =>
    intro k rest
    obtain ⟨hbackslash, hquote⟩ := h c List.mem_cons_self
    rw [List.cons_append, bareQuotes_cons hbackslash, if_neg hquote,
      ih (fun c' hc' => h c' (List.mem_cons_of_mem _ hc')), List.length_cons, Nat.add_assoc,
      Nat.add_comm 1]

theorem quoteless_escape (c : Char) : Quoteless ['\\', c] := fun _ _ => rfl

theorem quoteless_number (mark : Char) (width n : Nat) :
    Quoteless ('\\' :: mark :: paddedDigits 16 width n) :=
  (quoteless_escape mark).append (quoteless_plain fun _ hc => (shown_of_mem_paddedDigits hc).2)

theorem Form.quoteless (h : Form c text) : Quoteless text := by
  cases h with
  | plain _ hbackslash hquote => exact quoteless_plain (by simpa using ⟨hbackslash, hquote⟩)
  | letter letter _ _ => exact quoteless_escape letter
  | number mark width _ _ _ => exact quoteless_number mark width c.toNat

theorem quoteless_pieceText (piece : Utf8.Piece) : Quoteless (pieceText piece) := by
  cases piece with
  | char c => exact (form_escape c).quoteless
  | broken bytes =>
    have hbyte (b : UInt8) : Quoteless (byteEscape b.toNat) := quoteless_number 'x' 2 b.toNat
    exact Quoteless.flatMap hbyte bytes

/-- Without a closing quote, the opening one is the only one. -/
theorem bareQuotes_opened (data : Bytes) : bareQuotes 0 (opened data) = [0] := by
  have hbody := Quoteless.flatMap quoteless_pieceText (Utf8.pieces data) 1 []
  rw [List.append_nil] at hbody
  rw [opened, bareQuotes_cons (by decide), if_pos rfl, hbody]
  rfl

/-- A literal has bare quotes at both ends and nowhere else. -/
theorem bareQuotes_closed (data : Bytes) :
    bareQuotes 0 (opened data ++ [doubleQuote]) = [0, (opened data).length] := by
  have hbody := Quoteless.flatMap quoteless_pieceText (Utf8.pieces data) 1 [doubleQuote]
  rw [opened, List.cons_append, bareQuotes_cons (by decide), if_pos rfl, hbody,
    bareQuotes_cons (by decide), if_pos rfl, List.length_cons, Nat.add_comm 1]
  rfl

end Quotes

/-! ## Reading back -/

section Reading

variable {c mark : Char} {width : Nat} {text rest : List Char} {bytes more : Bytes}
  {closed : Bool}

/-- The bytes of an escape with a number. -/
def numberBytes (mark : Char) (n : Nat) : Bytes :=
  if mark = 'x' then [UInt8.ofNat n] else String.utf8EncodeChar (Char.ofNat n)

/-- Reads what follows a backslash: its bytes, and the text after it. -/
def escaped? : List Char → Option (Bytes × List Char)
  | [] => none
  | mark :: rest =>
    match marks.lookup mark with
    | some width =>
      (digitsValue? 16 0 (rest.take width)).map fun n => (numberBytes mark n, rest.drop width)
    | none => some (String.utf8EncodeChar (letterChar mark), rest)

/-- Reads one character or escape: its bytes, and the text after it. -/
def next? : List Char → Option (Bytes × List Char)
  | [] => none
  | c :: rest =>
    if c = doubleQuote then none
    else if c = '\\' then escaped? rest
    else some (String.utf8EncodeChar c, rest)

/-- The bytes that the text behind an opening quote shows, and whether a closing quote ends it. -/
inductive Spells : List Char → Bytes → Bool → Prop where
  | opened : Spells [] [] false
  | closed : Spells [doubleQuote] [] true
  | next {text rest : List Char} {bytes more : Bytes} {closed : Bool} :
      next? text = some (bytes, rest) → Spells rest more closed → Spells text (bytes ++ more) closed

theorem Spells.unique (h : Spells text bytes closed) {bytes' : Bytes} {closed' : Bool}
    (h' : Spells text bytes' closed') : bytes = bytes' ∧ closed = closed' := by
  induction h generalizing bytes' closed' with
  | opened =>
    cases h' with
    | opened => exact ⟨rfl, rfl⟩
    | next hnext _ => exact absurd hnext (by simp [next?])
  | closed =>
    cases h' with
    | closed => exact ⟨rfl, rfl⟩
    | next hnext _ => exact absurd hnext (by simp [next?])
  | next hnext _ ih =>
    cases h' with
    | opened => exact absurd hnext (by simp [next?])
    | closed => exact absurd hnext (by simp [next?])
    | next hnext' hrest' =>
      obtain ⟨rfl, rfl⟩ := Prod.mk.inj (Option.some.inj (hnext.symm.trans hnext'))
      obtain ⟨rfl, rfl⟩ := ih hrest'
      exact ⟨rfl, rfl⟩

theorem next?_number (hmark : (mark, width) ∈ marks) {n : Nat} (hn : n < 16 ^ width)
    (rest : List Char) :
    next? ('\\' :: mark :: paddedDigits 16 width n ++ rest) = some (numberBytes mark n, rest) := by
  have hall : ∀ p ∈ marks, marks.lookup p.1 = some p.2 ∧ 0 < p.2 := by decide
  obtain ⟨hlookup, hwidth⟩ := hall _ hmark
  have hlength := length_paddedDigits (by decide) hwidth hn
  have hvalue : digitsValue? 16 0 ((paddedDigits 16 width n ++ rest).take width) = some n := by
    rw [List.take_left' hlength, digitsValue?_paddedDigits (by decide) (by decide)]
  have hrest : (paddedDigits 16 width n ++ rest).drop width = rest := List.drop_left' hlength
  simp only [next?, escaped?, List.cons_append, hlookup, hvalue, hrest]
  rfl

theorem utf8EncodeChar_ascii (hc : c.toNat < 0x80) :
    String.utf8EncodeChar c = [UInt8.ofNat c.toNat] := by
  have hencode := Utf8.utf8EncodeChar_ofNat (n := c.toNat) (.inl (by omega))
  rwa [Char.ofNat_toNat, if_pos (by omega)] at hencode

/-- A written character is read as the bytes of its UTF-8 form. -/
theorem Form.next?_eq (h : Form c text) (rest : List Char) :
    next? (text ++ rest) = some (String.utf8EncodeChar c, rest) := by
  cases h with
  | plain _ hbackslash hquote =>
    rw [List.singleton_append, next?, if_neg hquote, if_neg hbackslash]
  | letter letter hmem hchar =>
    have hall : letters.all (marks.lookup · = none) = true := by decide
    have hlookup : marks.lookup letter = none := by simpa using List.all_eq_true.mp hall letter hmem
    simp only [List.cons_append, List.nil_append, next?, escaped?, hlookup, hchar]
    rfl
  | number mark width hmark hwidth hbyte =>
    rw [next?_number hmark hwidth, numberBytes, Char.ofNat_toNat]
    split
    · rename_i hx
      rw [utf8EncodeChar_ascii (hbyte hx)]
    · rfl

theorem spells_pieceText (piece : Utf8.Piece) (h : Spells rest more closed) :
    Spells (pieceText piece ++ rest) (piece.bytes ++ more) closed := by
  cases piece with
  | char c => exact .next ((form_escape c).next?_eq rest) h
  | broken bytes =>
    induction bytes with
    | nil => exact h
    | cons b bytes ih =>
      have hmark : ('x', 2) ∈ marks := by decide
      have hread := next?_number hmark b.toNat_lt (pieceText (.broken bytes) ++ rest)
      rw [numberBytes, if_pos rfl, UInt8.ofNat_toNat] at hread
      have hspells := Spells.next hread ih
      rwa [← List.append_assoc] at hspells

theorem spells_pieces (data : Bytes) (h : Spells rest more closed) :
    Spells ((Utf8.pieces data).flatMap pieceText ++ rest) (data ++ more) closed := by
  have hpieces (pieces : List Utf8.Piece) :
      Spells (pieces.flatMap pieceText ++ rest) (pieces.flatMap Utf8.Piece.bytes ++ more)
        closed := by
    induction pieces with
    | nil => exact h
    | cons piece pieces ih =>
      rw [List.flatMap_cons, List.flatMap_cons, List.append_assoc, List.append_assoc]
      exact spells_pieceText piece ih
  have hdata := hpieces (Utf8.pieces data)
  rwa [Utf8.flatMap_bytes_pieces] at hdata

/-- A literal shows its bytes, also without its closing quote. -/
theorem spells_opened (data : Bytes) : Spells (opened data).tail data false := by
  have hspells := spells_pieces data .opened
  rwa [List.append_nil, List.append_nil] at hspells

theorem spells_closed (data : Bytes) :
    Spells (opened data ++ [doubleQuote]).tail data true := by
  have hspells := spells_pieces data .closed
  rwa [List.append_nil] at hspells

end Reading

/-! ## Literals -/

section Literals

/-- A text in double quotes, none of them inside it, that has visible characters only. -/
structure IsLiteral (text : List Char) : Prop where
  ends : ∃ body, text = doubleQuote :: body ++ [doubleQuote]
  quotes : bareQuotes 0 text = [0, text.length - 1]
  shown : ∀ c ∈ text, Shown c

theorem toList_string (data : Bytes) :
    (string data).toList = opened data ++ [doubleQuote] := String.toList_ofList

theorem isLiteral_string (data : Bytes) : IsLiteral (string data).toList := by
  rw [toList_string]
  refine ⟨⟨_, rfl⟩, ?_, ?_⟩
  · rw [bareQuotes_closed, List.length_append]
    rfl
  · intro c hc
    rcases List.mem_append.mp hc with hopened | hquote
    · exact shown_opened data c hopened
    · obtain rfl := List.mem_singleton.mp hquote
      decide

theorem string_injective : Function.Injective string := by
  intro data data' h
  have hspells := spells_closed data
  rw [← toList_string, h, toList_string] at hspells
  exact (hspells.unique (spells_closed data')).1

end Literals

end MachInspect.Text.Quoted
