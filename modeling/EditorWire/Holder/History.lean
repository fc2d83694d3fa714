/-
  EditorWire.Holder.History — holders by name, and what happens to them.

  An operation acts on the holders there are, and gives a reply or fails.  What it
  does to a holder is done to the one of that name, so whatever a method has
  written when it fails is there to be seen:

      invoke slot method      the holder of the name, as the method leaves it
      keep slot made          a holder that was made, if it was

  A holder is only bound to its name once it is made.
-/
import EditorWire.Bindings
import EditorWire.Holder.Basic

namespace EditorWire

/-- The holders there are, by name. -/
abbrev Holders := List (Text × Holder)

namespace Holders

/-! ## §1. Operations. -/

/-- What can be done. -/
inductive Operation where
  /-- Make a holder of a value. -/
  | make (slot : Text) (value : Holder.Value)
  /-- Make a holder of the item of a payload. -/
  | createFromJson (slot : Text) (payload : Payload) (levels : Nat := Json.defaultLevels)
  /-- Put a value into a holder. -/
  | put (slot : Text) (value : Holder.Value)
  /-- Put the item of a payload into a holder. -/
  | unmarshal (slot : Text) (payload : Payload) (levels : Nat := Json.defaultLevels)
  /-- Take a look at the item. -/
  | get (slot : Text)
  /-- The JSON text of the item. -/
  | marshal (slot : Text)
  /-- The object of the item on the wire. -/
  | toWire (slot : Text)
  /-- Debug output. -/
  | display (slot : Text)
  /-- Compare two holders. -/
  | compare (slot other : Text)
  /-- Compare a holder with something else. -/
  | compareOther (slot : Text) (value : Json)
  /-- The JSON text of the items of several holders. -/
  | encode (slots : List Text)
  deriving Repr

namespace Operation

/-- Make a holder, with an item in it or without. -/
def create (slot : Text) (item? : Option Item) : Operation := .make slot (.ofItem? item?)

/-- Put an item into a holder. -/
def set (slot : Text) (item : Item) : Operation := .put slot (.ofItem item)

/-- Try to put a plain JSON value into a holder. -/
def setOther (slot : Text) (value : Json) : Operation := .put slot (.ofJson value)

end Operation

/-- What an operation gives back. -/
inductive Reply where
  /-- Nothing. -/
  | done
  /-- A text. -/
  | text (t : Text)
  /-- An item. -/
  | item (item : Item)
  /-- Whether two things are equal. -/
  | equal (b : Bool)
  deriving Repr

/-! ## §2. What is done to the holders. -/

/-- Something done to the holders there are: it has a result or fails, and leaves them as they are
by then. -/
abbrev Action (α : Type) := ExceptT Failure (StateM Holders) α

/-- The result of what is done, and the holders it leaves. -/
def Action.apply {α : Type} (action : Action α) (holders : Holders) :
    Except Failure α × Holders :=
  action.run.run holders

/-- The holder of a name. -/
def find (holders : Holders) (slot : Text) : Except Failure Holder :=
  match Bindings.get? holders slot with
  | some h => .ok h
  | none => .error (.noHolder slot)

/-- Call a method of the holder of a name.  The holder is left as the method leaves it, be it that
it fails. -/
def invoke {α : Type} (slot : Text) (method : Holder.Method α) : Action α := do
  let h ← MonadExcept.ofExcept (find (← MonadState.get) slot)
  let (result, left) := method.apply h
  modify fun holders => Bindings.insert holders slot left
  MonadExcept.ofExcept result

/-- Keep a holder that was made under its name. -/
def keep (slot : Text) (made : Except Failure Holder) : Action Unit := do
  let h ← MonadExcept.ofExcept made
  modify fun holders => Bindings.insert holders slot h

/-- Look at the holders and change none. -/
def looking {α : Type} (look : Holders → Except Failure α) : Action α := do
  MonadExcept.ofExcept (look (← MonadState.get))

/-- What an operation does. -/
def perform : Operation → Action Reply
  | .make slot value => do
      keep slot (Holder.make value)
      pure .done
  | .createFromJson slot payload levels => do
      keep slot (Holder.ofJson payload levels)
      pure .done
  | .put slot value => do
      invoke slot (Holder.put value)
      pure .done
  | .unmarshal slot payload levels => do
      invoke slot (Holder.unmarshal payload levels)
      pure .done
  | .get slot => do
      let item ← invoke slot (.reading Holder.get)
      pure (.item item)
  | .marshal slot => do
      let t ← invoke slot (.reading Holder.encode)
      pure (.text t)
  | .toWire slot => do
      let v ← invoke slot (.reading Holder.toWire)
      pure (.text v.print)
  | .display slot => do
      let t ← invoke slot (.reading fun h => .ok h.display)
      pure (.text t)
  | .compare slot other => looking fun holders => do
      let h ← holders.find slot
      let k ← holders.find other
      .ok (.equal (h.same k))
  | .compareOther slot _ => looking fun holders => do
      let _ ← holders.find slot
      .ok (.equal false)
  | .encode slots => looking fun holders => do
      let hs ← slots.mapM holders.find
      (Holder.encodeList hs).map .text

/-- One operation: what it gives back, and the holders after it. -/
def step (holders : Holders) (operation : Operation) : Except Failure Reply × Holders :=
  (perform operation).apply holders

/-- The holders after operations made one after another. -/
def run (holders : Holders) (operations : List Operation) : Holders :=
  operations.foldl (fun hs operation => (hs.step operation).2) holders

end Holders

end EditorWire
