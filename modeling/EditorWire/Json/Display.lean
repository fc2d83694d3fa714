/-
  EditorWire.Json.Display — a value as messages and debug output show it.

  Strings are quoted texts, members stand as `name: value`, a comma is followed
  by a space, and the three constants and the numbers that are not finite have
  names of their own.
-/
import EditorWire.Json.Value
import EditorWire.Number.FloatText
import EditorWire.Text.Quoted

namespace EditorWire.Json

/-- Numbers are written as in JSON, but for the names of those that are not finite. -/
def displayStyle : FloatStyle where
  lowestPlain := -4
  beyondPlain := 16
  exponentDigits := 2
  nanName := "nan"
  infinityName := "inf"

mutual

/-- The value as debug output shows it. -/
def display : Json → Text
  | .null => "None"
  | .bool true => "True"
  | .bool false => "False"
  | .int i => Decimal.ofInt i
  | .float x => displayStyle.write x
  | .string t => Quoted.quote t
  | .array items =>
      Ascii.openBracket :: (Text.joinWith ", " (displayItems items) ++ [Ascii.closeBracket])
  | .object members =>
      Ascii.openBrace :: (Text.joinWith ", " (displayMembers members) ++ [Ascii.closeBrace])

/-- The items as debug output shows them. -/
def displayItems : List Json → List Text
  | [] => []
  | v :: rest => display v :: displayItems rest

/-- The members as debug output shows them. -/
def displayMembers : List (Text × Json) → List Text
  | [] => []
  | (k, v) :: rest => (Quoted.quote k ++ ": " ++ display v) :: displayMembers rest

end

end EditorWire.Json
