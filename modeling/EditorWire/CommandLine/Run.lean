/-
  EditorWire.CommandLine.Run — what the program prints, and how it ends.

  A request is carried out in full before anything but the log is printed.  The
  exit code is 0 if all went well, 1 if something failed, and 2 for an error of
  use.  A batch of URIs or paths reports each of them in order, whatever became
  of the others; only a failure the command is not prepared for ends it.
-/
import EditorWire.CommandLine.Arguments
import EditorWire.CommandLine.Console
import EditorWire.Dispatch.Registry
import EditorWire.DocumentUri.Basic
import EditorWire.Outcome

namespace EditorWire.CommandLine

/-- What a request comes to. -/
structure Report where
  /-- The lines to print, the log included. -/
  lines : List Line
  /-- The exit code, or the failure no one was prepared for. -/
  ending : Except Failure Nat

/-- How a run of the program ends. -/
structure Result where
  exitCode : Nat
  output : Text
  errors : Text
  /-- The failure that ended the run, if one did. -/
  failure? : Option Failure
  deriving Repr

/-- The end of a run with an error of use. -/
def Result.misused : Result := ⟨2, [], [], none⟩

/-- Print the lines; the log only if it is asked for. -/
def Report.print (color verbose : Bool) (report : Report) : Result :=
  let printed :=
    CommandLine.print color (report.lines.filter fun line => verbose || !line.isLog)
  match printed.failure?, report.ending with
  | none, .ok exitCode => ⟨exitCode, printed.output, printed.errors, none⟩
  | some failure, _ => ⟨1, printed.output, printed.errors, some failure⟩
  | none, .error failure => ⟨1, printed.output, printed.errors, some failure⟩

/-! ## §1. Batches. -/

/-- The line of an outcome. -/
def outcomeLine : Outcome Text → Line
  | .ok t => .result t
  | .err failure => .error failure.message

/-- Convert each item and report its outcome; `families` are the failures to be prepared for. -/
def batch (families : List Failure.Family) (convert : Text → Except Failure Text)
    (items : List Text) : Report :=
  match items.mapM fun item => Outcome.capture families (convert item) with
  | .error failure => ⟨[], .error failure⟩
  | .ok outcomes =>
      ⟨outcomes.map outcomeLine, .ok (if outcomes.any Outcome.isErr then 1 else 0)⟩

/-- The path of a URI. -/
def pathOfUrl (raw : Text) : Except Failure Text := (DocumentUri.ofUrl raw).map DocumentUri.path

/-- The URI of a path. -/
def urlOfPath (style : PathStyle) (p : Text) : Except Failure Text :=
  (DocumentUri.ofLocalPath style p).map DocumentUri.toUrl

/-- What the log says about a URI that is converted. -/
def ignoredPartsLog (raw : Text) : List Line :=
  if (DocumentUri.ofUrl raw).isOk && DocumentUri.hasIgnoredParts raw then
    [.log ("DEBUG lsp_wire.core.uri: Ignoring query/fragment of document URI "
      ++ Quoted.quote raw)]
  else []

/-- The paths of URIs. -/
def toPathReport (uris : List Text) : Report :=
  let report := batch [.invalidUri] pathOfUrl uris
  let converted :=
    uris.takeWhile fun raw => (Outcome.capture [.invalidUri] (pathOfUrl raw)).isOk
  { report with lines := converted.flatMap ignoredPartsLog ++ report.lines }

/-- The URIs of paths. -/
def fromPathReport (style : PathStyle) (paths : List Text) : Report :=
  batch [.value] (urlOfPath style) paths

/-! ## §2. Results of requests. -/

/-- What the log says about a decoded result. -/
def decodedLog (method : Text) (decoded : Decoded) : List Line :=
  (match decoded with
    | .items holders =>
        [.log ("DEBUG lsp_wire.core.sumtypes: Decoded " ++ Decimal.ofNat holders.length
          ++ " items ("
          ++ Decimal.ofNat (holders.countP fun h => h.variant? == some .codeAction)
          ++ " code actions)")]
    | .value _ => [])
  ++ [.log ("DEBUG lsp_wire.core.dispatch: Decoded " ++ method ++ " result as "
    ++ decoded.typeName)]

/-- A holder in a few words, if something is held. -/
def describe? (h : Holder) : Option Text := do
  let item ← h.item?
  let variant ← h.variant?
  some (variant.name ++ ": " ++ item.title)

/-- The lines of items, each behind its place; `index` is the place of the first. -/
def itemLines (index : Nat) : List Text → List Line
  | [] => []
  | description :: rest =>
      .result ("  [" ++ Decimal.ofNat index ++ "] " ++ description) :: itemLines (index + 1) rest

/-- The items in a few words. -/
def summary (holders : List Holder) : List Line :=
  .result (Decimal.ofNat holders.length ++ " item(s):")
    :: itemLines 0 (holders.filterMap describe?)

/-- A decoded result. -/
def decodedReport (method : Text) (asJson : Bool) (decoded : Decoded) : Report :=
  let log := decodedLog method decoded
  match decoded, asJson with
  | .value _, true => ⟨log ++ [.result "null"], .ok 0⟩
  | .value _, false => ⟨log ++ [.result "No result"], .ok 0⟩
  | .items holders, false => ⟨log ++ summary holders, .ok 0⟩
  | .items holders, true =>
      match Holder.encodeList holders with
      | .ok t => ⟨log ++ [.result t], .ok 0⟩
      | .error failure => ⟨log, .error failure⟩

/-- A result that is not decoded; where there is no decoder, the methods that have one. -/
def undecodedReport (r : Registry) (method : Text) (fault : DecodeFault) : Report :=
  let error := Line.error ("Failed to decode " ++ method ++ " result: " ++ fault.message)
  let supported :=
    if (r.get? method).isSome then []
    else [Line.note ("Supported methods: " ++ Text.joinWith ", " r.methods)]
  ⟨error :: supported, .ok 1⟩

/-- The result that octets hold. -/
def decodeReport (method : Text) (asJson : Bool) (octets : Octets) : Report :=
  match Registry.default.decode method (.octets octets) with
  | .ok decoded => decodedReport method asJson decoded
  | .error (.decode fault) => undecodedReport Registry.default method fault
  | .error failure => ⟨[], .error failure⟩

/-! ## §3. Whole runs. -/

/-- Why no file can have the name, if none can. -/
def fileNameFault? (name : Text) : Option Failure :=
  match Utf8.firstSurrogates? name with
  | some fault => some (.unencodable fault)
  | none => if 0 ∈ name then some .nulInFileName else none

/-- What a request comes to, `read` giving what a source holds; none for a source that cannot
be read. -/
def Request.report (read : Text → Option Octets) : Request → Option Report
  | .toPath uris => some (toPathReport uris)
  | .fromPath style paths => some (fromPathReport style paths)
  | .decode method source asJson =>
      match fileNameFault? source with
      | some failure => some ⟨[], .error failure⟩
      | none => (read source).map (decodeReport method asJson)

/-- A run of the program with its arguments. -/
def run (color : Bool) (read : Text → Option Octets) (arguments : List Text) : Result :=
  match parse arguments with
  | none => .misused
  | some invocation =>
      match invocation.request.report read with
      | none => .misused
      | some report => report.print color invocation.verbose

end EditorWire.CommandLine
