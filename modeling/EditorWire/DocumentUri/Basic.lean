/-
  EditorWire.DocumentUri.Basic — documents by their path, and their URIs.

  A document URI is a path in normal form whose code points are scalar values.
  It is made

      ofPath        from a path
      ofLocalPath   from a path in the separator convention of a style
      ofUrl         from a `file:` URI, whose query and fragment are ignored

  and it is written by `toUrl`.  Equality and order are those of the paths.
-/
import EditorWire.DocumentUri.Path
import EditorWire.DocumentUri.Percent
import EditorWire.DocumentUri.Reference
import EditorWire.Failure

namespace EditorWire

/-- A document of the machine at hand. -/
structure DocumentUri where
  /-- The path of the document. -/
  path : Text
  /-- The path is in normal form. -/
  isNormal : Path.IsNormal path
  /-- The path has octets. -/
  isScalar : Text.IsScalar path
  deriving DecidableEq

namespace DocumentUri

instance : LT DocumentUri := ⟨fun a b => a.path < b.path⟩

instance : LE DocumentUri := ⟨fun a b => ¬ b.path < a.path⟩

instance (a b : DocumentUri) : Decidable (a < b) := inferInstanceAs (Decidable (a.path < b.path))

instance (a b : DocumentUri) : Decidable (a ≤ b) :=
  inferInstanceAs (Decidable (¬ b.path < a.path))

/-! ## §1. From paths. -/

/-- The document of a text of scalar values. -/
def ofScalars (p : Text) (h : Text.IsScalar p) : DocumentUri :=
  ⟨Path.normalize p, Path.isNormal_normalize p, Path.isScalar_normalize h⟩

/-- The document of a path, which may neither be empty nor hold surrogates. -/
def ofPath (p : Text) : Except Failure DocumentUri :=
  if p = [] then .error .emptyUriPath
  else if h : Text.IsScalar p then .ok (ofScalars p h)
  else .error (.invalidUri (.surrogatePath p))

/-- The document of a local path in the separator convention of a style. -/
def ofLocalPath (style : PathStyle) (p : Text) : Except Failure DocumentUri :=
  if p = [] then .error .emptyLocalPath else ofPath (style.toSlash p)

/-! ## §2. From URIs. -/

/-- The characters no URI holds as they are: blanks and control characters of ASCII. -/
def isUnsafe (c : Nat) : Bool := c ≤ 0x20 || c == 0x7F

/-- The only scheme of document URIs. -/
def fileScheme : Text := "file"

/-- The document a written path names; `raw` is the whole URI. -/
def ofWrittenPath (raw p : Text) : Except Failure DocumentUri :=
  if p = [] then .error (.invalidUri (.rejected raw .noPath))
  else
    match Percent.decode? p with
    | none => .error (.invalidUri (.rejected raw .brokenEscape))
    | some octets =>
        match Utf8.firstSurrogates? p with
        | some fault => .error (.unencodable fault)
        | none =>
            match Utf8.decode? octets with
            | none => .error (.invalidUri (.rejected raw .notUtf8))
            | some decoded => ofPath decoded

/-- The document a URI names. -/
def ofUrl (raw : Text) : Except Failure DocumentUri :=
  if raw.any isUnsafe then .error (.invalidUri (.rejected raw .unsafeCharacter))
  else
    match Reference.split? raw with
    | none => .error (.invalidUri (.rejected raw .malformed))
    | some parts =>
        if parts.scheme ≠ fileScheme then
          .error (.invalidUri (.rejected raw (.scheme parts.scheme)))
        else if !Authority.isLocal parts.authority then
          .error (.invalidUri (.rejected raw .remote))
        else ofWrittenPath raw parts.path

/-- The URI has a query or a fragment, which `ofUrl` ignores. -/
def hasIgnoredParts (raw : Text) : Bool :=
  match Reference.split? raw with
  | some parts => !parts.query.isEmpty || !parts.fragment.isEmpty
  | none => false

/-! ## §3. Written forms. -/

/-- The URI of the document: a slash is put in front of a drive. -/
def toUrl (d : DocumentUri) : Text :=
  let rooted := if Path.startsWithDrive d.path then Ascii.slash :: d.path else d.path
  fileScheme ++ "://" ++ Percent.encode rooted

/-- The document as debug output shows it. -/
def display (d : DocumentUri) : Text := "DocumentURI(" ++ Quoted.quote d.toUrl ++ ")"

/-- The path with the separators of a style. -/
def toLocalPath (style : PathStyle) (d : DocumentUri) : Text := style.fromSlash d.path

/-- The extension of the document, its dot included. -/
def extension (d : DocumentUri) : Text := Path.extension d.path

/-- The path as a path type shows it, without empty and single-dot segments. -/
def plainPath (d : DocumentUri) : Text := Path.collapse (d.toLocalPath .host)

end DocumentUri

end EditorWire
