/-
  EditorWire.DocumentUri.Wire — document URIs inside JSON.

  A document URI is written as a string.  It is read from a payload that is such
  a string, as the single field of a record, and as the key of a mapping to
  strings.  Record and mapping are read from strict JSON, in UTF-8 and without
  halves of surrogate pairs, and report every violation they find.
-/
import EditorWire.DocumentUri.Basic
import EditorWire.Json.Printer

namespace EditorWire

namespace DocumentUri

/-! ## §1. A string by itself. -/

/-- The JSON text of the URI of a document. -/
def toJson (d : DocumentUri) : Text := Json.print (.string d.toUrl)

/-- The document of a value, which has to be a string. -/
def ofValue : Json → Except Failure DocumentUri
  | .string t => ofUrl t
  | v => .error (.invalidUri (.notString v.typeName))

/-- The document of a payload. -/
def ofJson (payload : Payload) (levels : Nat := Json.defaultLevels) : Except Failure DocumentUri := do
  let v ← (Json.load payload levels).mapError
    (Failure.ofLoad fun m => .invalidUri (.malformedJson m))
  ofValue v

/-- The document of a value, as a check. -/
def check : Json → Checked DocumentUri
  | .string t =>
      match ofUrl t with
      | .ok d => .valid d
      | .error failure => .expected (.uri failure.message)
  | _ => .expected .string

end DocumentUri

/-! ## §2. Strict payloads. -/

/-- The dialect of records and mappings: no halves of surrogate pairs, every binding kept, no
number, be it an integer or not, with more than 4300 characters in front of the point, and no more
than 200 arrays and objects inside one another, besides one that holds nothing. -/
def strictDialect : Json.Dialect where
  nesting := 200
  isTooLong n := 4300 < n.whole.length + (if n.negative then 1 else 0)
  loneSurrogates := false
  mergesNames := false

/-- The value of a strict payload. -/
def loadStrict : Payload → Checked Json
  | .text t =>
      if t.any fun c => decide (IsSurrogate c) then .expected .unicode
      else readStrict t
  | .octets b =>
      match Utf8.decode? b with
      | some t => readStrict t
      | none => .expected .json
where
  /-- The value of a text. -/
  readStrict (t : Text) : Checked Json :=
    match Json.read strictDialect t with
    | .ok v => .valid v
    | .error _ => .expected .json

/-! ## §3. A record with a document. -/

/-- A record whose only field is a document. -/
structure DocumentField where
  uri : DocumentUri
  deriving DecidableEq

namespace DocumentField

/-- The name of the field. -/
def fieldName : Text := "uri"

/-- The record of a value; of a repeated name the last binding counts. -/
def check : Json → Checked DocumentField
  | .object members =>
      match Bindings.get? members.reverse fieldName with
      | some v => (DocumentUri.check v).under (.name fieldName) |>.map DocumentField.mk
      | none => (Checked.expected .present).under (.name fieldName)
  | _ => .expected .record

/-- The record of a payload. -/
def ofJson (payload : Payload) : Except Failure DocumentField :=
  match loadStrict payload with
  | .valid v => (check v).toExcept .invalid
  | .invalid vs => .error (.invalid vs)

/-- The record made from the value of its field, which is no document yet. -/
def ofValue (v : Json) : Except Failure DocumentField :=
  match DocumentUri.check v with
  | .valid d => .ok ⟨d⟩
  | .invalid vs => .error (.invalid (⟨[], .uriInstance⟩ :: vs))

/-- What the field of a record is made from in memory. -/
inductive Input where
  /-- A document. -/
  | document (d : DocumentUri)
  /-- A value that is no document yet. -/
  | value (v : Json)

/-- The record of its field: a document is kept, a value is checked. -/
def ofInput : Input → Except Failure DocumentField
  | .document d => .ok ⟨d⟩
  | .value v => ofValue v

/-- The JSON text of a record. -/
def toJson (f : DocumentField) : Text :=
  Json.print (.object [(fieldName, .string f.uri.toUrl)])

end DocumentField

/-! ## §4. A mapping of documents to strings. -/

/-- A mapping of documents to texts in the order of first insertion. -/
abbrev DocumentMap := List (DocumentUri × Text)

namespace DocumentMap

/-- The text of a value. -/
def checkText : Json → Checked Text
  | .string t => .valid t
  | _ => .expected .string

/-- The binding of a member: its name is the URI of a document, its value a string. -/
def checkMember (name : Text) (v : Json) : Checked (DocumentUri × Text) :=
  let key := (DocumentUri.check (.string name)).under (.name "[key]") |>.under (.name name)
  let text := (checkText v).under (.name name)
  (key.map Prod.mk).apply text

/-- The bindings of all members; the violations of every one are kept. -/
def checkMembers : List (Text × Json) → Checked (List (DocumentUri × Text))
  | [] => .valid []
  | (name, v) :: rest => ((checkMember name v).map List.cons).apply (checkMembers rest)

/-- The mapping of a value. -/
def check : Json → Checked DocumentMap
  | .object members => (checkMembers members).map Bindings.ofList
  | _ => .expected .object

/-- The mapping of a payload. -/
def ofJson (payload : Payload) : Except Failure DocumentMap :=
  match loadStrict payload with
  | .valid v => (check v).toExcept .invalid
  | .invalid vs => .error (.invalid vs)

/-- The JSON text of a mapping, its keys written as URIs. -/
def toJson (m : DocumentMap) : Text :=
  Json.print (.object (m.map fun (d, t) => (d.toUrl, .string t)))

end DocumentMap

end EditorWire
