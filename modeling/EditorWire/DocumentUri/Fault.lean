/-
  EditorWire.DocumentUri.Fault — why a text names no document.

  A rejected URI is reported with the reason and the URI itself.  The checks are
  made in the order of the constructors of `Rejection`; the first that fails is
  the one reported.
-/
import EditorWire.Json.Payload
import EditorWire.Text.Quoted

namespace EditorWire

namespace DocumentUri

/-- Why a URI is not that of a local document. -/
inductive Rejection where
  /-- It holds a blank or a control character as it is. -/
  | unsafeCharacter
  /-- Its authority cannot be that of any URI. -/
  | malformed
  /-- Its scheme is another one. -/
  | scheme (found : Text)
  /-- Its authority names another machine. -/
  | remote
  /-- It has no path. -/
  | noPath
  /-- A percent sign in its path is not followed by two hexadecimal digits. -/
  | brokenEscape
  /-- The octets of its path are not UTF-8. -/
  | notUtf8
  deriving Repr, DecidableEq

/-- What a rejection of a URI is reported as. -/
def Rejection.message (raw : Text) : Rejection → Text
  | .unsafeCharacter =>
      "URI contains whitespace or control characters: " ++ Quoted.quote raw
  | .malformed => "Malformed URI: " ++ Quoted.quote raw
  | .scheme found =>
      "Invalid URI scheme '" ++ found ++ "', expected 'file': " ++ Quoted.quote raw
  | .remote => "Remote file URIs are not supported: " ++ Quoted.quote raw
  | .noPath => "URI has no path: " ++ Quoted.quote raw
  | .brokenEscape => "Invalid percent-escape in URI: " ++ Quoted.quote raw
  | .notUtf8 => "URI path is not valid UTF-8: " ++ Quoted.quote raw

/-- Why no document URI is made. -/
inductive Fault where
  /-- The URI is not one of a local document. -/
  | rejected (raw : Text) (reason : Rejection)
  /-- The path holds a surrogate. -/
  | surrogatePath (path : Text)
  /-- The payload that should hold a URI is not JSON. -/
  | malformedJson (m : Json.Malformation)
  /-- The payload is JSON, but no string; `found` is the kind of value it is. -/
  | notString (found : Text)
  deriving Repr, DecidableEq

/-- What a fault is reported as. -/
def Fault.message : Fault → Text
  | .rejected raw reason => reason.message raw
  | .surrogatePath path => "Path is not valid UTF-8 text: " ++ Quoted.quote path
  | .malformedJson m => "Malformed JSON for document URI: " ++ m.message
  | .notString found => "Document URI must be a JSON string, got " ++ found

/-- The URI a fault is about, if there is one. -/
def Fault.uri? : Fault → Option Text
  | .rejected raw _ => some raw
  | _ => none

end DocumentUri

end EditorWire
