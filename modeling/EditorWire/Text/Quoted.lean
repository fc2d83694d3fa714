/-
  EditorWire.Text.Quoted — a text between quotes, as messages show it.

  The quotes are apostrophes, or double quotes if the text holds an apostrophe
  and no double quote.  Inside them

      \\ \' \n \r \t      stand for the backslash, the quote in use and the blanks
      \xhh \uhhhh \Uhhhhhhhh   stand for every other unprintable code point
-/
import EditorWire.Number.Decimal
import EditorWire.Text.Unprintable

namespace EditorWire.Quoted

/-- The quote a text is put between. -/
def mark (t : Text) : Nat :=
  if t.contains Ascii.apostrophe && !t.contains Ascii.quote then Ascii.quote
  else Ascii.apostrophe

/-- The shortest of the numeric escapes that holds the code point. -/
def numericEscape (c : Nat) : Text :=
  if c ≤ 0xFF then "\\x" ++ Hexadecimal.lower 2 c
  else if c ≤ 0xFFFF then "\\u" ++ Hexadecimal.lower 4 c
  else "\\U" ++ Hexadecimal.lower 8 c

/-- What stands for a code point between quotes of the kind `q`. -/
def escapePoint (q c : Nat) : Text :=
  if c == q || c == Ascii.backslash then [Ascii.backslash, c]
  else if c == 0x09 then "\\t"
  else if c == 0x0A then "\\n"
  else if c == 0x0D then "\\r"
  else if isUnprintable c then numericEscape c
  else [c]

/-- The text between quotes. -/
def quote (t : Text) : Text :=
  let q := mark t
  q :: (t.flatMap (escapePoint q) ++ [q])

end EditorWire.Quoted
