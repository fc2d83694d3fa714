/-
  EditorWire.CodeAction.Model — commands, code actions and their fields.

  A response to a code action request lists commands and code actions.  An
  optional field is absent, null or given, and the three are kept apart: what was
  absent is left out when the item is written again, what was null is written as
  null.  Payloads the library does not look into stay JSON values.

  The order of the fields here is the order they are written in.
-/
import EditorWire.CodeAction.Fault
import EditorWire.Json.Value

namespace EditorWire

/-! ## §1. Optional fields. -/

/-- An optional field. -/
inductive Field (α : Type) where
  /-- Not mentioned. -/
  | absent
  /-- Mentioned as null. -/
  | null
  /-- Given a value. -/
  | given (a : α)
  deriving Repr

namespace Field

variable {α : Type}

/-- The field was mentioned. -/
def isPresent : Field α → Bool
  | .absent => false
  | _ => true

/-- The JSON value of the field; null if there is none. -/
def toJson (write : α → Json) : Field α → Json
  | .given a => write a
  | _ => .null

/-- The member the field is written as; none if it is absent. -/
def member (name : Text) (write : α → Json) (field : Field α) : Members :=
  if field.isPresent then [(name, field.toJson write)] else []

/-- The names of the present ones among named fields. -/
def namesOf (fields : List (Text × Bool)) : List Text :=
  (fields.filter Prod.snd).map Prod.fst

end Field

/-! ## §2. Commands. -/

/-- A command the client can run. -/
structure Command where
  /-- What the user sees. -/
  title : Text
  /-- The identifier of the command. -/
  command : Text
  /-- What the command is run with. -/
  arguments : Field (List Json)
  deriving Repr

namespace Command

/-- The names of the fields, in order. -/
def fieldNames : List Text := ["title", "command", "arguments"]

/-- The names of the fields that were given. -/
def givenNames (c : Command) : List Text :=
  Field.namesOf (fieldNames.zip [true, true, c.arguments.isPresent])

/-- The members of the command on the wire. -/
def wireMembers (c : Command) : Members :=
  ([("title", .string c.title), ("command", .string c.command)] : Members)
    ++ c.arguments.member "arguments" .array

/-- All fields, null where there is no value. -/
def allFields (c : Command) : Members :=
  fieldNames.zip [.string c.title, .string c.command, c.arguments.toJson .array]

end Command

/-! ## §3. Code actions. -/

/-- A change that can be made in the code. -/
structure CodeAction where
  /-- What the user sees. -/
  title : Text
  /-- What sort of change it is. -/
  kind : Field Text
  /-- The diagnostics it resolves. -/
  diagnostics : Field (List Members)
  /-- It is the best one among several. -/
  isPreferred : Field Bool
  /-- Why it cannot be made now. -/
  disabled : Field Members
  /-- The edit that makes it. -/
  edit : Field Members
  /-- The command run after the edit. -/
  command : Field Command
  /-- What the server wants back; null is a value like any other. -/
  data : Option Json
  deriving Repr

namespace CodeAction

/-- The names of the fields, in order. -/
def fieldNames : List Text :=
  ["title", "kind", "diagnostics", "is_preferred", "disabled", "edit", "command", "data"]

/-- The name of the preference on the wire. -/
def preferredName : Text := "isPreferred"

/-- The name of the preference in memory, accepted on the wire too. -/
def preferredAlias : Text := "is_preferred"

/-- The names of the fields that were given. -/
def givenNames (a : CodeAction) : List Text :=
  Field.namesOf (fieldNames.zip
    [true, a.kind.isPresent, a.diagnostics.isPresent, a.isPreferred.isPresent,
     a.disabled.isPresent, a.edit.isPresent, a.command.isPresent, a.data.isSome])

/-- The value of a list of objects. -/
def objects (items : List Members) : Json := .array (items.map .object)

/-- The members of the code action on the wire. -/
def wireMembers (a : CodeAction) : Members :=
  ([("title", .string a.title)] : Members)
    ++ a.kind.member "kind" .string
    ++ a.diagnostics.member "diagnostics" objects
    ++ a.isPreferred.member preferredName .bool
    ++ a.disabled.member "disabled" .object
    ++ a.edit.member "edit" .object
    ++ a.command.member "command" (fun c => .object c.wireMembers)
    ++ (match a.data with
        | some v => ([("data", v)] : Members)
        | none => [])

/-- All fields, null where there is no value. -/
def allFields (a : CodeAction) : Members :=
  fieldNames.zip
    [.string a.title, a.kind.toJson .string, a.diagnostics.toJson objects,
     a.isPreferred.toJson .bool, a.disabled.toJson .object, a.edit.toJson .object,
     a.command.toJson fun c => .object c.allFields, a.data.getD .null]

end CodeAction

/-! ## §4. Items. -/

/-- An item of a response: one of the two. -/
inductive Item where
  | command (c : Command)
  | codeAction (a : CodeAction)
  deriving Repr

namespace Item

/-- Which of the two it is. -/
def variant : Item → Variant
  | .command _ => .command
  | .codeAction _ => .codeAction

/-- What the user sees. -/
def title : Item → Text
  | .command c => c.title
  | .codeAction a => a.title

/-- The names of the fields that were given, in the order of the fields. -/
def givenNames : Item → List Text
  | .command c => c.givenNames
  | .codeAction a => a.givenNames

/-- The members of the item on the wire. -/
def wireMembers : Item → Members
  | .command c => c.wireMembers
  | .codeAction a => a.wireMembers

/-- All fields, null where there is no value. -/
def allFields : Item → Members
  | .command c => c.allFields
  | .codeAction a => a.allFields

/-- Equality of items: the same shape, and equal values in all fields.  A field that is null
equals one that is absent. -/
def same (a b : Item) : Bool :=
  decide (a.variant = b.variant) && Json.sameValue (.object a.allFields) (.object b.allFields)

end Item

end EditorWire
