/-
  EditorWire.Main — the program.

  Everything is decided by `CommandLine.run`; here its arguments and its source are
  read, and what it comes to is written.
-/
import EditorWire.CommandLine.Run

namespace EditorWire.CommandLine

/-- The octets of a byte array. -/
def octetsOf (bytes : ByteArray) : Octets := bytes.toList.map UInt8.toNat

/-- Everything that comes from a stream. -/
partial def readAll (stream : IO.FS.Stream) (before : ByteArray) : IO ByteArray := do
  let chunk ← stream.read 65536
  if chunk.isEmpty then return before else readAll stream (before ++ chunk)

/-- What a source holds; none if it cannot be read. -/
def readSource (source : Text) : IO (Option Octets) := do
  if source = standardInput then
    let bytes ← readAll (← IO.getStdin) ByteArray.empty
    return some (octetsOf bytes)
  try
    let bytes ← IO.FS.readBinFile source.toString
    return some (octetsOf bytes)
  catch _ => return none

/-- What is said about a wrong use. -/
def usage : String :=
  "usage: [-v] uri to-path URI... | uri from-path [--style posix|windows] PATH..."
    ++ " | decode [--json] METHOD [SOURCE]"

/-- Write what a run comes to, and give its exit code. -/
def report (result : Result) : IO UInt32 := do
  IO.print result.output.toString
  IO.eprint result.errors.toString
  match result.failure? with
  | some failure => IO.eprintln failure.message.toString
  | none => pure ()
  if result.exitCode = 2 then IO.eprintln usage
  return result.exitCode.toUInt32

end EditorWire.CommandLine

/-- Carry out the request of the arguments. -/
def main (args : List String) : IO UInt32 := do
  let arguments := args.map EditorWire.Text.ofString
  let content ←
    match EditorWire.CommandLine.parse arguments with
    | some ⟨_, .decode _ source _⟩ => EditorWire.CommandLine.readSource source
    | _ => pure none
  let color ← (← IO.getStdout).isTty
  EditorWire.CommandLine.report (EditorWire.CommandLine.run color (fun _ => content) arguments)
