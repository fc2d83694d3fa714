/-
  EditorWire.CommandLine.Arguments — what the program is asked to do.

      [-v | --verbose]… uri to-path URI…
      [-v | --verbose]… uri from-path [--style posix|windows] PATH…
      [-v | --verbose]… decode [--json] METHOD [SOURCE]

  Verbosity is asked for before the command.  The options of a command may stand
  anywhere among its arguments; `--` ends them, and a lone hyphen is an argument.
  The value of an option follows it, or an equals sign behind its name; of a
  repeated option the last value counts.  Everything else is an error of use.
-/
import EditorWire.DocumentUri.Path

namespace EditorWire.CommandLine

/-- What the program is asked to do. -/
inductive Request where
  /-- Give the paths of URIs. -/
  | toPath (uris : List Text)
  /-- Give the URIs of paths in the separator convention of a style. -/
  | fromPath (style : PathStyle) (paths : List Text)
  /-- Decode the result a source holds, which answers a method. -/
  | decode (method source : Text) (asJson : Bool)
  deriving Repr

/-- A request, and whether decisions are logged on the way. -/
structure Invocation where
  verbose : Bool
  request : Request
  deriving Repr

/-! ## §1. Options. -/

/-- What ends the options. -/
def endOfOptions : Text := "--"

/-- The argument is meant as an option. -/
def looksLikeOption : Text → Bool
  | Ascii.hyphen :: _ :: _ => true
  | _ => false

/-- The options in front of a command, and what comes after them; none if one is not of the
class `known`. -/
def takeOptions (known : Text → Bool) : List Text → Option (List Text × List Text)
  | [] => some ([], [])
  | a :: rest =>
      if a = endOfOptions then some ([], rest)
      else if !looksLikeOption a then some ([], a :: rest)
      else if known a then (takeOptions known rest).map fun (options, r) => (a :: options, r)
      else none

/-- Options with their values, and arguments, each in order. -/
structure Scanned where
  options : List (Text × Text)
  arguments : List Text
  deriving Repr

namespace Scanned

/-- One more option in front. -/
def withOption (name value : Text) (s : Scanned) : Scanned :=
  { s with options := (name, value) :: s.options }

/-- One more argument in front. -/
def withArgument (a : Text) (s : Scanned) : Scanned := { s with arguments := a :: s.arguments }

end Scanned

/-- The options and arguments of a command that knows some options without a value and some
with one; none if there is any other option, or a value too many or too few. -/
def scan (flags valued : List Text) : List Text → Option Scanned
  | [] => some ⟨[], []⟩
  | a :: rest =>
      if a = endOfOptions then some ⟨[], rest⟩
      else if !looksLikeOption a then (scan flags valued rest).map (Scanned.withArgument a)
      else
        match Text.cutAround Ascii.equals a with
        | (name, some value) =>
            if name ∈ valued then (scan flags valued rest).map (Scanned.withOption name value)
            else none
        | (name, none) =>
            if name ∈ flags then (scan flags valued rest).map (Scanned.withOption name [])
            else if name ∈ valued then
              match rest with
              | value :: rest =>
                  (scan flags valued rest).map (Scanned.withOption name value)
              | [] => none
            else none

/-- Behind the end of the options everything is an argument. -/
theorem scan_endOfOptions (flags valued rest : List Text) :
    scan flags valued (endOfOptions :: rest) = some ⟨[], rest⟩ := by
  rw [scan, if_pos rfl]

/-! ## §2. Commands. -/

/-- The names that ask for verbosity: `--verbose`, `-v`, and `-vv` and so on. -/
def asksForLogs (a : Text) : Bool :=
  a == Text.ofString "--verbose" ||
    match a with
    | Ascii.hyphen :: letters => !letters.isEmpty && letters.all (· == 0x76)
    | _ => false

/-- The name of the option that gives the style of paths. -/
def styleOption : Text := "--style"

/-- The name of the option that asks for JSON. -/
def jsonOption : Text := "--json"

/-- The source that stands for the standard input. -/
def standardInput : Text := "-"

/-- At least one argument. -/
def atLeastOne (arguments : List Text) : Option (List Text) :=
  if arguments.isEmpty then none else some arguments

/-- Arguments of `uri to-path`. -/
def parseToPath (arguments : List Text) : Option Request := do
  let scanned ← scan [] [] arguments
  let uris ← atLeastOne scanned.arguments
  some (.toPath uris)

/-- Arguments of `uri from-path`. -/
def parseFromPath (arguments : List Text) : Option Request := do
  let scanned ← scan [] [styleOption] arguments
  let style ←
    match scanned.options.getLast? with
    | some (_, name) => PathStyle.ofName? name
    | none => some PathStyle.host
  let paths ← atLeastOne scanned.arguments
  some (.fromPath style paths)

/-- Arguments of `decode`. -/
def parseDecode (arguments : List Text) : Option Request := do
  let scanned ← scan [jsonOption] [] arguments
  let asJson := !scanned.options.isEmpty
  match scanned.arguments with
  | [method] => some (.decode method standardInput asJson)
  | [method, source] => some (.decode method source asJson)
  | _ => none

/-- Arguments of `uri`. -/
def parseUri (arguments : List Text) : Option Request := do
  let (_, rest) ← takeOptions (fun _ => false) arguments
  match rest with
  | [] => none
  | command :: arguments =>
      if command = Text.ofString "to-path" then parseToPath arguments
      else if command = Text.ofString "from-path" then parseFromPath arguments
      else none

/-- The command and its arguments. -/
def parseRequest : List Text → Option Request
  | [] => none
  | command :: arguments =>
      if command = Text.ofString "uri" then parseUri arguments
      else if command = Text.ofString "decode" then parseDecode arguments
      else none

/-- All arguments of the program. -/
def parse (arguments : List Text) : Option Invocation := do
  let (options, rest) ← takeOptions asksForLogs arguments
  let request ← parseRequest rest
  some ⟨!options.isEmpty, request⟩

end EditorWire.CommandLine
