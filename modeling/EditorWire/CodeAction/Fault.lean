/-
  EditorWire.CodeAction.Fault — why a payload holds no command or code action.
-/
import EditorWire.Json.Payload
import EditorWire.Violation

namespace EditorWire

/-- The two shapes an item of a code action response has. -/
inductive Variant where
  /-- A command to run. -/
  | command
  /-- A change that can be made. -/
  | codeAction
  deriving Repr, DecidableEq

/-- The name of a shape. -/
def Variant.name : Variant → Text
  | .command => "Command"
  | .codeAction => "CodeAction"

/-- Why a payload is not decoded. -/
inductive DecodeFault where
  /-- It is not JSON. -/
  | malformed (m : Json.Malformation)
  /-- The value should be an object; `found` is the kind of value it is. -/
  | notObject (found : Text)
  /-- The value should be an array; `found` is the kind of value it is. -/
  | notArray (found : Text)
  /-- The object breaks the shape it was read as. -/
  | invalid (variant : Variant) (violations : List Violation)
  /-- An item of the array is at fault. -/
  | element (index : Nat) (fault : DecodeFault)
  /-- No decoder is registered for the method. -/
  | noDecoder (method : Text)
  deriving Repr

namespace DecodeFault

/-- How many violations there are, in words. -/
def count (n : Nat) : Text :=
  Decimal.ofNat n ++ (if n = 1 then " validation error for " else " validation errors for ")

/-- The first line of what a fault is reported as. -/
def message : DecodeFault → Text
  | .malformed m => "Malformed JSON: " ++ m.message
  | .notObject found => "Expected a JSON object for Command or CodeAction, got " ++ found
  | .notArray found => "Expected a JSON array, got " ++ found
  | .invalid variant violations =>
      "Invalid " ++ variant.name ++ ": " ++ count violations.length ++ variant.name
  | .element index fault =>
      "Invalid element at index " ++ Decimal.ofNat index ++ ": " ++ message fault
  | .noDecoder method => "No result decoder registered for method '" ++ method ++ "'"

/-- The violations a fault comes from, if it comes from any. -/
def violations? : DecodeFault → Option (List Violation)
  | .invalid _ violations => some violations
  | .element _ fault => violations? fault
  | _ => none

end DecodeFault

end EditorWire
