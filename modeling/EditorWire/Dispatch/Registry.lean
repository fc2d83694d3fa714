/-
  EditorWire.Dispatch.Registry — decoders of responses by method.

  A response does not name the method it answers, so the caller does, and the
  registry knows what shape comes back.  Registering a method again replaces its
  decoder.  A payload is only looked at if there is a decoder for its method.
-/
import EditorWire.Bindings
import EditorWire.Holder.Basic

namespace EditorWire

/-- What a decoder makes of a result. -/
inductive Decoded where
  /-- Commands and code actions. -/
  | items (holders : List Holder)
  /-- Any other value. -/
  | value (v : Json)
  deriving Repr

/-- What messages call the kind of a decoded result. -/
def Decoded.typeName : Decoded → Text
  | .items _ => "list"
  | .value v => v.typeName

/-- A decoder takes the value of a result. -/
abbrev Decoder := Json → Except Failure Decoded

namespace Decoder

/-- The result of a code action request: null, or an array of items. -/
def codeActions : Decoder
  | .null => .ok (.value .null)
  | v => (Holder.decodeList v).map .items

/-- A single item, as a list of one. -/
def singleItem : Decoder := fun v =>
  ((Item.decode v).mapError .decode).map fun item => .items [.of item]

/-- The value as it is. -/
def identity : Decoder := fun v => .ok (.value v)

/-- The same value for every result. -/
def constant (v : Json) : Decoder := fun _ => .ok (.value v)

end Decoder

/-- Decoders by the method they are registered for. -/
abbrev Registry := List (Text × Decoder)

namespace Registry

/-- The registry without decoders. -/
def empty : Registry := []

/-- The method of code action requests. -/
def codeActionMethod : Text := "textDocument/codeAction"

/-- Register a decoder for a method, in place of the one registered before. -/
def register (r : Registry) (method : Text) (decoder : Decoder) : Registry :=
  Bindings.insert r method decoder

/-- The decoder of a method. -/
def get? (r : Registry) (method : Text) : Option Decoder := Bindings.get? r method

/-- A registered decoder is the one found. -/
theorem get?_register (r : Registry) (method : Text) (decoder : Decoder) :
    (r.register method decoder).get? method = some decoder :=
  Bindings.get?_insert r method decoder

/-- Registering for one method changes nothing for another. -/
theorem get?_register_of_ne {method other : Text} (h : other ≠ method) (r : Registry)
    (decoder : Decoder) : (r.register method decoder).get? other = r.get? other :=
  Bindings.get?_insert_of_ne h r decoder

/-- The methods that have a decoder, in ascending order. -/
def methods (r : Registry) : List Text :=
  (Bindings.keys r).mergeSort fun a b => !decide (b < a)

/-- The decoded result of a payload that answers the method. -/
def decode (r : Registry) (method : Text) (payload : Payload)
    (levels : Nat := Json.defaultLevels) : Except Failure Decoded :=
  match r.get? method with
  | none => .error (.decode (.noDecoder method))
  | some decoder => Holder.load payload levels >>= decoder

/-- The registry every program starts with. -/
def default : Registry := empty.register codeActionMethod Decoder.codeActions

end Registry

end EditorWire
