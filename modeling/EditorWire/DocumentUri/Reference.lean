/-
  EditorWire.DocumentUri.Reference — the parts of a URI.

      scheme ":" "//" authority path "?" query "#" fragment

  A scheme is there only if what stands before the first colon starts with a
  letter and holds nothing but letters, digits, `+`, `-` and `.`; an authority
  only behind two slashes, up to the next `/`, `?` or `#`.  The fragment is cut
  off before the query.
-/
import EditorWire.DocumentUri.Authority

namespace EditorWire

/-- A URI in its parts; a part that is not there is empty. -/
structure Reference where
  /-- In lower case. -/
  scheme : Text
  authority : Text
  path : Text
  query : Text
  fragment : Text
  deriving Repr, DecidableEq

namespace Reference

/-- The characters of a scheme. -/
def isSchemeCharacter (c : Nat) : Bool :=
  CodePoint.isLetter c || CodePoint.isDigit c || c == Ascii.plus || c == Ascii.hyphen
    || c == Ascii.dot

/-- The scheme and the text behind its colon. -/
def splitScheme (t : Text) : Text × Text :=
  match Text.cutAround Ascii.colon t with
  | (c :: s, some rest) =>
      if CodePoint.isLetter c && s.all isSchemeCharacter then (Text.toLower (c :: s), rest)
      else ([], t)
  | _ => ([], t)

/-- What ends an authority. -/
def endsAuthority (c : Nat) : Bool := c == Ascii.slash || c == Ascii.question || c == Ascii.hash

/-- The authority and the text from its end on. -/
def splitAuthority : Text → Text × Text
  | Ascii.slash :: Ascii.slash :: r => Text.cutAt endsAuthority r
  | t => ([], t)

/-- The parts of a URI; none if its authority is malformed. -/
def split? (t : Text) : Option Reference :=
  let (scheme, rest) := splitScheme t
  let (authority, rest) := splitAuthority rest
  let (rest, fragment) := Text.cutAround Ascii.hash rest
  let (path, query) := Text.cutAround Ascii.question rest
  if Authority.isWellFormed authority then
    some ⟨scheme, authority, path, query.getD [], fragment.getD []⟩
  else none

end Reference

end EditorWire
