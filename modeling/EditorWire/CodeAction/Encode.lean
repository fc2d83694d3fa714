/-
  EditorWire.CodeAction.Encode — items on the wire and in debug output.

  An item is written with the fields that were given, in their order; numbers
  that are not finite become null.  Values nested too deep are not written.
-/
import EditorWire.CodeAction.Model
import EditorWire.Failure
import EditorWire.Json.Display
import EditorWire.Json.Printer

namespace EditorWire

namespace Item

/-- How many arrays and objects may lie inside one another in a written item. -/
def maxWrittenNesting : Nat := 255

/-- The object of the item on the wire. -/
def toWire (item : Item) : Except Failure Json :=
  let written := Json.object item.wireMembers
  if maxWrittenNesting < written.depth then .error .tooDeepToWrite
  else .ok written.finiteOnly

/-- The object of all fields. -/
def inMemory (item : Item) : Json := .object item.allFields

/-- The JSON text of the item on the wire. -/
def encode (item : Item) : Except Failure Text := item.toWire.map Json.print

end Item

/-! ## Debug output. -/

/-- A named value as debug output shows it. -/
def displayField (name value : Text) : Text := name ++ Ascii.equals :: value

/-- A model as debug output shows it: its name and its fields in order. -/
def displayModel (name : Text) (fields : List Text) : Text :=
  name ++ "(" ++ Text.joinWith ", " fields ++ ")"

/-- The command as debug output shows it. -/
def Command.display (c : Command) : Text :=
  displayModel Variant.command.name (c.allFields.map fun (name, v) => displayField name v.display)

/-- The code action as debug output shows it, its command as a model. -/
def CodeAction.display (a : CodeAction) : Text :=
  displayModel Variant.codeAction.name
    (a.allFields.map fun (name, v) =>
      match decide (name = Text.ofString "command"), a.command with
      | true, .given c => displayField name c.display
      | _, _ => displayField name v.display)

/-- The item as debug output shows it. -/
def Item.display : Item → Text
  | .command c => c.display
  | .codeAction a => a.display

end EditorWire
