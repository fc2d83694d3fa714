/-
  EditorWire.Json.Printer — the compact JSON text of a value.

  No blanks; members in their order; every code point as it is except the quote,
  the backslash and those below U+0020.  Numbers that are not finite are written
  by their names.
-/
import EditorWire.Json.Value
import EditorWire.Number.FloatText

namespace EditorWire.Json

/-- Fractions have the fewest digits that read back, and an exponent of two digits or more below
1e-4 and from 1e16 on. -/
def floatStyle : FloatStyle where
  lowestPlain := -4
  beyondPlain := 16
  exponentDigits := 2
  nanName := "NaN"
  infinityName := "Infinity"

/-- What stands for a code point inside a JSON string. -/
def escapePoint (c : Nat) : Text :=
  if c = Ascii.quote then "\\\""
  else if c = Ascii.backslash then "\\\\"
  else if c = 0x0A then "\\n"
  else if c = 0x0D then "\\r"
  else if c = 0x09 then "\\t"
  else if c = 0x08 then "\\b"
  else if c = 0x0C then "\\f"
  else if c < 0x20 then "\\u" ++ Hexadecimal.lower 4 c
  else [c]

/-- A string in its quotes. -/
def printString (t : Text) : Text :=
  Ascii.quote :: (t.flatMap escapePoint ++ [Ascii.quote])

mutual

/-- The compact JSON text of a value. -/
def print : Json → Text
  | .null => "null"
  | .bool true => "true"
  | .bool false => "false"
  | .int i => Decimal.ofInt i
  | .float x => floatStyle.write x
  | .string t => printString t
  | .array items =>
      Ascii.openBracket :: (Text.joinWith [Ascii.comma] (printItems items)
        ++ [Ascii.closeBracket])
  | .object members =>
      Ascii.openBrace :: (Text.joinWith [Ascii.comma] (printMembers members)
        ++ [Ascii.closeBrace])

/-- The texts of the items. -/
def printItems : List Json → List Text
  | [] => []
  | v :: rest => print v :: printItems rest

/-- The texts of the members, each with its name. -/
def printMembers : List (Text × Json) → List Text
  | [] => []
  | (k, v) :: rest => (printString k ++ Ascii.colon :: print v) :: printMembers rest

end

end EditorWire.Json
