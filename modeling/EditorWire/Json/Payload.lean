/-
  EditorWire.Json.Payload — JSON as it arrives: a text, or octets in some encoding.

  `load` finds the encoding, reads the value and reports a fault with its line,
  its column and its index.  A text payload may not start with a byte order
  mark; octets may, for it names their encoding.

  How many arrays and objects may lie inside one another is no property of JSON:
  each takes a level of the stack, and how many levels are left is up to the
  caller.  So the levels are a parameter of whatever loads a payload.
-/
import EditorWire.Json.Reader
import EditorWire.Text.Encoding

namespace EditorWire

/-- A JSON text before it is read. -/
inductive Payload where
  /-- Already decoded. -/
  | text (t : Text)
  /-- Still in some encoding. -/
  | octets (b : Octets)
  deriving Repr, DecidableEq

namespace Json

/-! ## §1. Places in a text. -/

/-- A place of a text; lines and columns count from one. -/
structure Place where
  line : Nat
  column : Nat
  index : Nat
  deriving Repr, DecidableEq

/-- The place at which `rest`, an ending of the text, begins. -/
def Place.of (t rest : Text) : Place :=
  let before := t.take (t.length - rest.length)
  { line := before.count Ascii.newline + 1
    column := (before.reverse.takeWhile (· != Ascii.newline)).length + 1
    index := before.length }

/-- A place as messages give it. -/
def Place.message (p : Place) : Text :=
  "line " ++ Decimal.ofNat p.line ++ " column " ++ Decimal.ofNat p.column
    ++ " (char " ++ Decimal.ofNat p.index ++ ")"

/-! ## §2. What can be wrong with a payload. -/

/-- What a reason is reported as. -/
def Reason.message : Reason → Text
  | .valueExpected => "Expecting value"
  | .commaExpected => "Expecting ',' delimiter"
  | .colonExpected => "Expecting ':' delimiter"
  | .nameExpected => "Expecting property name enclosed in double quotes"
  | .extraData => "Extra data"
  | .unterminatedString => "Unterminated string starting at"
  | .controlCharacter => "Invalid control character at"
  | .invalidEscape => "Invalid \\escape"
  | .invalidUnicodeEscape => "Invalid \\uXXXX escape"
  | .byteOrderMark => "Unexpected UTF-8 BOM (decode using utf-8-sig)"

/-- Why a payload is not JSON. -/
inductive Malformation where
  /-- The octets are no text. -/
  | encoding (fault : Encoding.Fault)
  /-- The text is not JSON. -/
  | text (reason : Reason) (place : Place)
  deriving Repr, DecidableEq

/-- What a malformation is reported as. -/
def Malformation.message : Malformation → Text
  | .encoding fault => fault.message
  | .text reason place => reason.message ++ ": " ++ place.message

/-- Why a payload gives no value. -/
inductive LoadFault where
  /-- It is not JSON. -/
  | malformed (m : Malformation)
  /-- An integer has more digits than are read. -/
  | longInteger (digits : Nat)
  /-- It is nested deeper than is read. -/
  | tooDeep
  deriving Repr, DecidableEq

/-! ## §3. Loading. -/

/-- The levels that the stack leaves to a caller who is not deep in it. -/
def defaultLevels : Nat := 990

/-- The dialect of payloads: lone surrogates pass, a repeated name takes the last value, integers
have up to 4300 digits, and every array and object takes one of the levels that are left, be there
anything in it or not. -/
def payloadDialect (levels : Nat := defaultLevels) : Dialect where
  nesting := ⟨levels, true⟩
  isTooLong n := n.isInteger && 4300 < n.whole.length
  loneSurrogates := true
  mergesNames := true

/-- The byte order mark as a code point. -/
def byteOrderMark : Nat := 0xFEFF

/-- The text of a payload. -/
def Payload.decode : Payload → Except Malformation Text
  | .text t =>
      if t.head? = some byteOrderMark then .error (.text .byteOrderMark (Place.of t t))
      else .ok t
  | .octets b => (Encoding.decodeDetected b).mapError .encoding

/-- A reader's fault with its place. -/
def LoadFault.ofRead (t : Text) : ReadFault → LoadFault
  | .malformed reason rest => .malformed (.text reason (Place.of t rest))
  | .longNumber digits => .longInteger digits
  | .tooDeep => .tooDeep

/-- The value of a payload, so many levels being left for arrays and objects. -/
def load (payload : Payload) (levels : Nat := defaultLevels) : Except LoadFault Json := do
  let t ← (Payload.decode payload).mapError .malformed
  (read (payloadDialect levels) t).mapError (LoadFault.ofRead t)

end Json

end EditorWire
