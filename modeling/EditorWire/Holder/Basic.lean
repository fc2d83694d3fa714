/-
  EditorWire.Holder.Basic — a place for one item.

  A holder has two slots, one for the shape of an item and one for the item, and
  each is read by itself:

      variant?     isSet, same
      item?        get, toWire, encode, display, same

  A method changes the slots one at a time and may fail between two changes; what
  was changed by then stays changed.  That the slots agree, and that a method that
  fails has changed neither, is nothing a holder has by itself.
-/
import EditorWire.CodeAction.Decode
import EditorWire.CodeAction.Encode

namespace EditorWire

/-- A place for a command or a code action. -/
structure Holder where
  /-- The shape that was written last. -/
  variant? : Option Variant
  /-- The item that was written last. -/
  item? : Option Item
  deriving Repr

namespace Holder

/-! ## §1. What is handed over. -/

/-- A value that a caller hands over to be put into a holder. -/
inductive Value where
  /-- None at all. -/
  | nothing
  /-- A command. -/
  | command (c : Command)
  /-- A code action. -/
  | codeAction (a : CodeAction)
  /-- Anything else, of which only the name of its type is looked at. -/
  | other (typeName : Text)
  deriving Repr

namespace Value

/-- The value of an item. -/
def ofItem : Item → Value
  | .command c => .command c
  | .codeAction a => .codeAction a

/-- The value of an item, if there is one. -/
def ofItem? (item? : Option Item) : Value := (item?.map ofItem).getD .nothing

/-- A plain JSON value. -/
def ofJson : Json → Value
  | .null => .nothing
  | v => .other v.typeName

/-- The value as an instance of code actions. -/
def codeAction? : Value → Option CodeAction
  | .codeAction a => some a
  | _ => none

/-- The value as an instance of commands. -/
def command? : Value → Option Command
  | .command c => some c
  | _ => none

/-- There is no value. -/
def isNothing : Value → Bool
  | .nothing => true
  | _ => false

/-- What messages call the type of the value. -/
def typeName : Value → Text
  | .nothing => "NoneType"
  | .command _ => Variant.command.name
  | .codeAction _ => Variant.codeAction.name
  | .other typeName => typeName

end Value

/-! ## §2. Methods. -/

/-- A method of holders: it has a result or fails, and leaves the holder with what it has written
to its slots by then. -/
abbrev Method (α : Type) := ExceptT Failure (StateM Holder) α

/-- The result of a method, and the holder it leaves. -/
def Method.apply {α : Type} (method : Method α) (h : Holder) : Except Failure α × Holder :=
  method.run.run h

/-- A method that looks at the holder and writes nothing. -/
def Method.reading {α : Type} (look : Holder → Except Failure α) : Method α := do
  MonadExcept.ofExcept (look (← MonadState.get))

/-- Put a value in.  A code action is looked for first, then a command; the slots are written one
after the other. -/
def put (value : Value) : Method Unit := do
  let (variant, item) ←
    match value.codeAction? with
    | some a => pure (Variant.codeAction, Item.codeAction a)
    | none =>
        match value.command? with
        | some c => pure (Variant.command, Item.command c)
        | none => throw (.notAnItem value.typeName)
  modify fun h => { h with variant? := some variant }
  modify fun h => { h with item? := some item }

/-- Empty the slots of a new holder, and put a value in if there is one. -/
def init (value : Value) : Method Unit := do
  modify fun h => { h with variant? := none }
  modify fun h => { h with item? := none }
  if value.isNothing then pure () else put value

/-- A JSON value of a payload, a payload that is no JSON being a decoding fault. -/
def load (payload : Payload) (levels : Nat := Json.defaultLevels) : Except Failure Json :=
  (Json.load payload levels).mapError (Failure.ofLoad fun m => .decode (.malformed m))

/-- Put the item of a payload in. -/
def unmarshal (payload : Payload) (levels : Nat := Json.defaultLevels) : Method Unit := do
  let v ← MonadExcept.ofExcept (load payload levels)
  let item ← MonadExcept.ofExcept ((Item.decode v).mapError .decode)
  put (.ofItem item)

/-! ## §3. New holders. -/

/-- The holder of nothing. -/
def empty : Holder := ⟨none, none⟩

/-- The holder of an item. -/
def of (item : Item) : Holder := ⟨some item.variant, some item⟩

/-- A new holder of a value; one that is not made to the end is lost. -/
def make (value : Value) : Except Failure Holder :=
  let (result, h) := (init value).apply empty
  result.map fun _ => h

/-- The holder of the item of an object. -/
def ofObject (v : Json) : Except Failure Holder := do
  let item ← (Item.decode v).mapError .decode
  make (.ofItem item)

/-- The holder of the item of a payload. -/
def ofJson (payload : Payload) (levels : Nat := Json.defaultLevels) : Except Failure Holder :=
  load payload levels >>= ofObject

/-- What is made of an item is the holder of it. -/
theorem make_ofItem (item : Item) : make (.ofItem item) = .ok (of item) := by
  cases item <;> rfl

/-! ## §4. What is read. -/

/-- Something is held. -/
def isSet (h : Holder) : Bool := h.variant?.isSome

/-- What is held. -/
def get (h : Holder) : Except Failure Item :=
  match h.item? with
  | some item => .ok item
  | none => .error .unset

/-- The object on the wire of what is held. -/
def toWire (h : Holder) : Except Failure Json := h.get >>= Item.toWire

/-- The JSON text of what is held, with nothing around it. -/
def encode (h : Holder) : Except Failure Text := h.toWire.map Json.print

/-- Equality of holders: the same shape, and equal items or none. -/
def same (h k : Holder) : Bool :=
  decide (h.variant? = k.variant?) &&
    match h.item?, k.item? with
    | none, none => true
    | some a, some b => a.same b
    | _, _ => false

/-- The holder as debug output shows it. -/
def display (h : Holder) : Text :=
  match h.item? with
  | none => "CommandOrCodeAction(<unset>)"
  | some item => "CommandOrCodeAction(" ++ item.display ++ ")"

/-! ## §5. Lists of holders. -/

/-- The holders of the items of an array. -/
def decodeList (v : Json) : Except Failure (List Holder) :=
  ((Item.decodeList v).mapError .decode).map fun items => items.map of

/-- The holders of the items of a payload that is an array. -/
def listOfJson (payload : Payload) (levels : Nat := Json.defaultLevels) :
    Except Failure (List Holder) :=
  load payload levels >>= decodeList

/-- The objects on the wire; the first holder that gives none ends it. -/
def toWireList : List Holder → Except Failure (List Json)
  | [] => .ok []
  | h :: rest =>
      match h.toWire with
      | .error failure => .error failure
      | .ok v => (toWireList rest).map (v :: ·)

/-- The JSON text of the items as an array. -/
def encodeList (holders : List Holder) : Except Failure Text :=
  (toWireList holders).map fun values => Json.print (.array values)

end Holder

end EditorWire
