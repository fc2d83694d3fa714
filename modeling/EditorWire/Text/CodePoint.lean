/-
  EditorWire.Text.CodePoint — code points, texts and octets.

  A text that comes from a JSON escape or from undecodable bytes may hold a lone
  surrogate, which no `Char` can be.  So a text is a list of code points, and
  being a Unicode scalar value is a predicate on them:

      IsSurrogate c   c lies in U+D800 … U+DFFF
      IsScalar c      c is a code point of Unicode and no surrogate

  The ASCII classes below are the ones URI and JSON grammars are written in.
-/
namespace EditorWire

/-- A text is its code points in order, each the number that names it; lone surrogates
are allowed. -/
abbrev Text := List Nat

/-- Octets are their values in order; the decoders refuse every number above 255. -/
abbrev Octets := List Nat

/-! ## §1. Surrogates and scalar values. -/

/-- The code points UTF-16 reserves for the halves of a pair. -/
def IsSurrogate (c : Nat) : Prop := 0xD800 ≤ c ∧ c ≤ 0xDFFF

/-- The code points a well-formed Unicode text is made of. -/
def IsScalar (c : Nat) : Prop := c < 0xD800 ∨ (0xDFFF < c ∧ c < 0x110000)

instance (c : Nat) : Decidable (IsSurrogate c) :=
  inferInstanceAs (Decidable (_ ∧ _))

instance (c : Nat) : Decidable (IsScalar c) :=
  inferInstanceAs (Decidable (_ ∨ _))

/-- The first half of a UTF-16 pair. -/
def isHighSurrogate (c : Nat) : Bool := 0xD800 ≤ c && c ≤ 0xDBFF

/-- The second half of a UTF-16 pair. -/
def isLowSurrogate (c : Nat) : Bool := 0xDC00 ≤ c && c ≤ 0xDFFF

/-- The code point a UTF-16 pair stands for. -/
def joinSurrogates (high low : Nat) : Nat :=
  0x10000 + (high - 0xD800) * 0x400 + (low - 0xDC00)

/-! ## §2. The ASCII code points that grammars name. -/

namespace Ascii

/-- `LF`, the only line end of a JSON text. -/
@[match_pattern] abbrev newline : Nat := 0x0A
/-- `ESC`, which opens a terminal control sequence. -/
@[match_pattern] abbrev escape : Nat := 0x1B
/-- `"` -/
@[match_pattern] abbrev quote : Nat := 0x22
/-- `#` -/
@[match_pattern] abbrev hash : Nat := 0x23
/-- `%` -/
@[match_pattern] abbrev percent : Nat := 0x25
/-- `'` -/
@[match_pattern] abbrev apostrophe : Nat := 0x27
/-- `+` -/
@[match_pattern] abbrev plus : Nat := 0x2B
/-- `,` -/
@[match_pattern] abbrev comma : Nat := 0x2C
/-- `-` -/
@[match_pattern] abbrev hyphen : Nat := 0x2D
/-- `.` -/
@[match_pattern] abbrev dot : Nat := 0x2E
/-- `/` -/
@[match_pattern] abbrev slash : Nat := 0x2F
/-- `:` -/
@[match_pattern] abbrev colon : Nat := 0x3A
/-- `=` -/
@[match_pattern] abbrev equals : Nat := 0x3D
/-- `?` -/
@[match_pattern] abbrev question : Nat := 0x3F
/-- `@` -/
@[match_pattern] abbrev at_ : Nat := 0x40
/-- `[` -/
@[match_pattern] abbrev openBracket : Nat := 0x5B
/-- `\` -/
@[match_pattern] abbrev backslash : Nat := 0x5C
/-- `]` -/
@[match_pattern] abbrev closeBracket : Nat := 0x5D
/-- `u`, the mark of a numeric escape. -/
@[match_pattern] abbrev u : Nat := 0x75
/-- The opening brace. -/
@[match_pattern] abbrev openBrace : Nat := 0x7B
/-- The closing brace. -/
@[match_pattern] abbrev closeBrace : Nat := 0x7D

end Ascii

/-! ## §3. ASCII classes and hexadecimal digits. -/

namespace CodePoint

/-- `0-9` -/
def isDigit (c : Nat) : Bool := 0x30 ≤ c && c ≤ 0x39

/-- `A-Z` -/
def isUpper (c : Nat) : Bool := 0x41 ≤ c && c ≤ 0x5A

/-- `a-z` -/
def isLower (c : Nat) : Bool := 0x61 ≤ c && c ≤ 0x7A

/-- `A-Z a-z` -/
def isLetter (c : Nat) : Bool := isUpper c || isLower c

/-- The lower case of an ASCII letter; every other code point is kept. -/
def toLower (c : Nat) : Nat := if isUpper c then c + 0x20 else c

/-- The value of a hexadecimal digit of either case. -/
def hexValue? (c : Nat) : Option Nat :=
  if isDigit c then some (c - 0x30)
  else if 0x41 ≤ c && c ≤ 0x46 then some (c - 0x37)
  else if 0x61 ≤ c && c ≤ 0x66 then some (c - 0x57)
  else none

/-- `0-9 A-F a-f` -/
def isHexDigit (c : Nat) : Bool := (hexValue? c).isSome

/-- The upper-case hexadecimal digit of a value below 16. -/
def upperHexDigit (n : Nat) : Nat := if n < 10 then 0x30 + n else 0x37 + n

/-- The lower-case hexadecimal digit of a value below 16. -/
def lowerHexDigit (n : Nat) : Nat := if n < 10 then 0x30 + n else 0x57 + n

theorem hexValue?_upperHexDigit {n : Nat} (h : n < 16) :
    hexValue? (upperHexDigit n) = some n := by
  have : ∀ m < 16, hexValue? (upperHexDigit m) = some m := by decide
  exact this n h

theorem hexValue?_lt {c n : Nat} (h : hexValue? c = some n) : n < 16 := by
  simp only [hexValue?, isDigit, Bool.and_eq_true, decide_eq_true_eq] at h
  split at h
  · simp only [Option.some.injEq] at h; omega
  · split at h
    · simp only [Option.some.injEq] at h; omega
    · split at h
      · simp only [Option.some.injEq] at h; omega
      · simp at h

theorem isHexDigit_of_hexValue? {c n : Nat} (h : hexValue? c = some n) : isHexDigit c = true := by
  rw [isHexDigit, h]
  rfl

theorem isHexDigit_iff {c : Nat} :
    isHexDigit c = true
      ↔ (0x30 ≤ c ∧ c ≤ 0x39) ∨ (0x41 ≤ c ∧ c ≤ 0x46) ∨ (0x61 ≤ c ∧ c ≤ 0x66) := by
  simp only [isHexDigit, hexValue?, isDigit, Bool.and_eq_true, decide_eq_true_eq]
  split
  · next h => simp only [Option.isSome_some, true_iff]; omega
  split
  · next h => simp only [Option.isSome_some, true_iff]; omega
  split
  · next h => simp only [Option.isSome_some, true_iff]; omega
  · simp only [Option.isSome_none, Bool.false_eq_true, false_iff]; omega

end CodePoint

/-! ## §4. Texts. -/

namespace Text

/-- The code points of a string. -/
def ofString (s : String) : Text := s.toList.map Char.toNat

instance : Coe String Text := ⟨ofString⟩

/-- The text as a string; a lone surrogate becomes the replacement character. -/
def toString (t : Text) : String :=
  String.ofList (t.map fun c => if IsScalar c then Char.ofNat c else Char.ofNat 0xFFFD)

/-- The ASCII letters of the text in lower case. -/
def toLower (t : Text) : Text := t.map CodePoint.toLower

/-- The text before the first code point of the class, and the text from there on. -/
def cutAt (p : Nat → Bool) (t : Text) : Text × Text :=
  (t.takeWhile fun c => !p c, t.dropWhile fun c => !p c)

/-- The text before the first `c`, and the text after it if there is one. -/
def cutAround (c : Nat) (t : Text) : Text × Option Text :=
  match cutAt (· == c) t with
  | (before, _ :: after) => (before, some after)
  | (before, []) => (before, none)

/-- The pieces between the separators: always at least one. -/
def splitOn (c : Nat) : Text → List Text
  | [] => [[]]
  | x :: r =>
      if x == c then [] :: splitOn c r
      else match splitOn c r with
        | piece :: pieces => (x :: piece) :: pieces
        | [] => [[x]]

/-- Texts put in a row with a separator between them. -/
def joinWith (separator : Text) : List Text → Text
  | [] => []
  | [t] => t
  | t :: ts => t ++ separator ++ joinWith separator ts

/-- Every code point of the text is a Unicode scalar value. -/
def IsScalar (t : Text) : Prop := ∀ c ∈ t, EditorWire.IsScalar c

instance (t : Text) : Decidable (IsScalar t) :=
  inferInstanceAs (Decidable (∀ c ∈ t, EditorWire.IsScalar c))

end Text

end EditorWire
