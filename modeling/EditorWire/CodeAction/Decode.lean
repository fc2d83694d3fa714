/-
  EditorWire.CodeAction.Decode — which item an object is, and its fields.

  No member tells a command from a code action, so the shape does: a member that
  only code actions have, or a command that is itself an object, makes it a code
  action, and everything else is read as a command.  There is no second try.

  All conditions on the fields are checked, and every broken one is reported, in
  the order of the fields.  Members of other names are passed over.
-/
import EditorWire.CodeAction.Model

namespace EditorWire

/-! ## §1. Single fields. -/

namespace Field

variable {α : Type}

/-- A required string. -/
def requireText (members : Members) (name : Text) : Checked Text :=
  Checked.under (.name name) <|
    match Bindings.get? members name with
    | some (.string t) => .valid t
    | some _ => .expected .string
    | none => .expected .present

/-- An optional field whose value is checked if there is one. -/
def optional (members : Members) (name : Text) (check : Json → Checked α) : Checked (Field α) :=
  match Bindings.get? members name with
  | none => .valid .absent
  | some .null => .valid .null
  | some v => ((check v).under (.name name)).map .given

/-- A string. -/
def asText : Json → Checked Text
  | .string t => .valid t
  | _ => .expected .string

/-- A truth value. -/
def asBool : Json → Checked Bool
  | .bool b => .valid b
  | _ => .expected .boolean

/-- An array. -/
def asList : Json → Checked (List Json)
  | .array items => .valid items
  | _ => .expected .list

/-- An object. -/
def asObject : Json → Checked Members
  | .object members => .valid members
  | _ => .expected .dictionary

/-- Objects only; `index` is that of the first item. -/
def allObjects (index : Nat) : List Json → Checked (List Members)
  | [] => .valid []
  | v :: rest =>
      (((asObject v).under (.index index)).map List.cons).apply (allObjects (index + 1) rest)

/-- An array of objects. -/
def asObjects : Json → Checked (List Members)
  | .array items => allObjects 0 items
  | _ => .expected .list

end Field

/-! ## §2. Whole items. -/

namespace Command

/-- The command of an object. -/
def check (members : Members) : Checked Command :=
  (((Field.requireText members "title").map Command.mk).apply
    (Field.requireText members "command")).apply
    (Field.optional members "arguments" Field.asList)

/-- The command of a value. -/
def checkValue : Json → Checked Command
  | .object members => check members
  | _ => .expected .command

end Command

namespace CodeAction

/-- The name the preference goes by in an object; that of the wire comes first. -/
def preferenceName (members : Members) : Text :=
  if Bindings.has members preferredName then preferredName else preferredAlias

/-- The code action of an object, its command checked by `command`. -/
def checkWith (command : Checked (Field Command)) (members : Members) : Checked CodeAction :=
  ((((((((Field.requireText members "title").map CodeAction.mk).apply
    (Field.optional members "kind" Field.asText)).apply
    (Field.optional members "diagnostics" Field.asObjects)).apply
    (Field.optional members (preferenceName members) Field.asBool)).apply
    (Field.optional members "disabled" Field.asObject)).apply
    (Field.optional members "edit" Field.asObject)).apply
    command).apply
    (.valid (Bindings.get? members "data"))

/-- The code action of an object. -/
def check (members : Members) : Checked CodeAction :=
  checkWith (Field.optional members "command" Command.checkValue) members

end CodeAction

/-! ## §3. The shape of an object. -/

/-- The names only code actions have. -/
def codeActionNames : List Text :=
  ["kind", "isPreferred", "diagnostics", "edit", "disabled", "data"]

/-- The shape an object is read as. -/
def classify (members : Members) : Variant :=
  if codeActionNames.any (Bindings.has members) then .codeAction
  else
    match Bindings.get? members "command" with
    | some (.object _) => .codeAction
    | _ => .command

namespace Item

/-- The item of an object, read as the shape it was made out to be. -/
def check (variant : Variant) (members : Members) : Checked Item :=
  match variant with
  | .command => (Command.check members).map .command
  | .codeAction => (CodeAction.check members).map .codeAction

/-- The item of a value. -/
def decode : Json → Except DecodeFault Item
  | .object members =>
      let variant := classify members
      (check variant members).toExcept (.invalid variant)
  | v => .error (.notObject v.typeName)

/-- The items of values; `index` is that of the first.  The first value at fault ends it. -/
def decodeFrom (index : Nat) : List Json → Except DecodeFault (List Item)
  | [] => .ok []
  | v :: rest =>
      match decode v with
      | .error fault => .error (.element index fault)
      | .ok item => (decodeFrom (index + 1) rest).map (item :: ·)

/-- The items of an array. -/
def decodeList : Json → Except DecodeFault (List Item)
  | .array values => decodeFrom 0 values
  | v => .error (.notArray v.typeName)

end Item

/-! ## §4. Items made from their fields. -/

namespace Item

/-- The item of named fields; `command`, if there is one, is the command it is given as a whole.
A command's own field of that name is a string, so none can be given there. -/
def build (variant : Variant) (fields : Members) (command : Option Command) : Checked Item :=
  match variant, command with
  | variant, none => check variant fields
  | .codeAction, some c => (CodeAction.checkWith (.valid (.given c)) fields).map .codeAction
  | .command, some c =>
      (Command.check (Bindings.insert fields "command" (.object c.allFields))).map .command

end Item

end EditorWire
