/-
  EditorWire.Failure — everything that can go wrong, by cause.

  Each cause has its message, and belongs to one or more families, by which
  callers say what they are prepared for: a URI or decoding fault, for instance,
  is a fault of the wire and a fault of a value as well.
-/
import EditorWire.CodeAction.Fault
import EditorWire.DocumentUri.Fault

namespace EditorWire

/-- Why an operation gives no result. -/
inductive Failure where
  /-- A text names no document. -/
  | invalidUri (fault : DocumentUri.Fault)
  /-- A payload is not decoded. -/
  | decode (fault : DecodeFault)
  /-- An empty holder was asked for its value. -/
  | unset
  /-- A holder was given something else than a command or code action. -/
  | notAnItem (found : Text)
  /-- A document URI needs a path. -/
  | emptyUriPath
  /-- A local path may not be empty. -/
  | emptyLocalPath
  /-- There is no path style of the name. -/
  | unknownStyle (name : Text)
  /-- An integer has more digits than are read. -/
  | longInteger (digits : Nat)
  /-- A payload is nested deeper than is read. -/
  | tooDeepToRead
  /-- A value is nested deeper than is written. -/
  | tooDeepToWrite
  /-- A text with surrogates has no octets. -/
  | unencodable (fault : Utf8.Unencodable)
  /-- A value breaks the shape of a model. -/
  | invalid (violations : List Violation)
  /-- There is no holder of the name. -/
  | noHolder (name : Text)
  /-- A NUL in the name of a file. -/
  | nulInFileName
  deriving Repr

namespace Failure

/-- What a failure is reported as. -/
def message : Failure → Text
  | .invalidUri fault => fault.message
  | .decode fault => fault.message
  | .unset => "CommandOrCodeAction has no value"
  | .notAnItem found => "CommandOrCodeAction accepts Command or CodeAction, got " ++ found
  | .emptyUriPath => "Document URI path must not be empty"
  | .emptyLocalPath => "Cannot build a document URI from an empty path"
  | .unknownStyle name => Quoted.quote name ++ " is not a valid PathStyle"
  | .longInteger digits =>
      "Exceeds the limit (4300 digits) for integer string conversion: value has "
        ++ Decimal.ofNat digits
        ++ " digits; use sys.set_int_max_str_digits() to increase the limit"
  | .tooDeepToRead => "maximum recursion depth exceeded"
  | .tooDeepToWrite => "Maximum serialization depth exceeded"
  | .unencodable fault => fault.message
  | .invalid violations => Decimal.ofNat violations.length ++ " validation errors"
  | .noHolder name => Quoted.quote name
  | .nulInFileName => "embedded null byte"

/-- The violations a failure comes from, if it comes from any. -/
def violations? : Failure → Option (List Violation)
  | .decode fault => fault.violations?
  | .invalid violations => some violations
  | _ => none

/-! ## Families. -/

/-- What a caller may be prepared for. -/
inductive Family where
  /-- Every failure. -/
  | any
  /-- Faults of what came over the wire, and reading an empty holder. -/
  | wire
  /-- Texts that name no document. -/
  | invalidUri
  /-- Payloads that are not decoded. -/
  | decode
  /-- Empty holders. -/
  | unset
  /-- Things that are not there. -/
  | lookup
  /-- Names that are not there. -/
  | key
  /-- Values that are not as they should be. -/
  | value
  /-- Texts without octets. -/
  | unencodable
  /-- Broken shapes of models. -/
  | validation
  /-- Things of the wrong kind. -/
  | kind
  /-- Payloads nested too deep. -/
  | nesting
  deriving Repr, DecidableEq

/-- The families a failure belongs to. -/
def families : Failure → List Family
  | .invalidUri _ => [.any, .wire, .value, .invalidUri]
  | .decode _ => [.any, .wire, .value, .decode]
  | .unset => [.any, .wire, .lookup, .unset]
  | .notAnItem _ => [.any, .kind]
  | .emptyUriPath | .emptyLocalPath | .unknownStyle _ | .longInteger _ | .tooDeepToWrite
  | .nulInFileName => [.any, .value]
  | .tooDeepToRead => [.any, .nesting]
  | .unencodable _ => [.any, .value, .unencodable]
  | .invalid _ => [.any, .value, .validation]
  | .noHolder _ => [.any, .lookup, .key]

/-- The failure belongs to the family. -/
def isIn (failure : Failure) (family : Family) : Bool := failure.families.contains family

/-- A payload fault as a failure, `malformed` saying what a payload that is no JSON is. -/
def ofLoad (malformed : Json.Malformation → Failure) : Json.LoadFault → Failure
  | .malformed m => malformed m
  | .longInteger digits => .longInteger digits
  | .tooDeep => .tooDeepToRead

end Failure

end EditorWire
