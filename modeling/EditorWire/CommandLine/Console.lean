/-
  EditorWire.CommandLine.Console — lines on the two output streams.

  A terminal shows errors in red and notes dimmed.  Elsewhere no control sequence
  is written, not even one that comes with the data:

      ESC "[" parameter* intermediate* final

      parameter      0-9 : ; < = > ?
      intermediate   space ! " # $ % & ' ( ) * + , - . /
      final          @ A-Z [ \ ] ^ _ ` a-z { | } ~

  The output stream is strict UTF-8, so a line with a surrogate is not written at
  all; the error stream shows a surrogate as an escape.
-/
import EditorWire.Failure
import EditorWire.Number.Decimal

namespace EditorWire.CommandLine

/-! ## §1. Control sequences. -/

/-- A parameter of a control sequence: `0` to `?`. -/
def isParameter (c : Nat) : Bool := 0x30 ≤ c && c ≤ 0x3F

/-- What may stand behind the parameters: the space to `/`. -/
def isIntermediate (c : Nat) : Bool := 0x20 ≤ c && c ≤ 0x2F

/-- What ends a control sequence: `@` to `~`. -/
def isFinal (c : Nat) : Bool := 0x40 ≤ c && c ≤ 0x7E

/-- The length of the control sequence the text starts with, if it starts with one. -/
def controlSequence? : Text → Option Nat
  | Ascii.escape :: Ascii.openBracket :: r =>
      let parameters := r.takeWhile isParameter
      let behind := r.dropWhile isParameter
      let intermediates := behind.takeWhile isIntermediate
      match behind.dropWhile isIntermediate with
      | c :: _ =>
          if isFinal c then some (parameters.length + intermediates.length + 3) else none
      | [] => none
  | _ => none

/-- The text without its first `skipped` code points and without control sequences. -/
def plainAfter (skipped : Nat) : Text → Text
  | [] => []
  | c :: r =>
      match skipped, controlSequence? (c :: r) with
      | n + 1, _ => plainAfter n r
      | 0, some n => plainAfter (n - 1) r
      | 0, none => c :: plainAfter 0 r

/-- The text without control sequences. -/
def plain (t : Text) : Text := plainAfter 0 t

/-- A text without escape characters holds no control sequence. -/
theorem plain_eq_self {t : Text} (h : Ascii.escape ∉ t) : plain t = t := by
  unfold plain
  induction t with
  | nil => rfl
  | cons c r ih =>
    have hc : controlSequence? (c :: r) = none := by
      unfold controlSequence?
      split
      · next heq =>
        exact absurd (List.mem_cons.2 (.inl (List.cons.inj heq).1.symm)) h
      · rfl
    unfold plainAfter
    rw [hc]
    simp [ih fun hr => h (List.mem_cons_of_mem c hr)]

/-- The control sequence of a display attribute. -/
def attributeCode (n : Nat) : Text :=
  Ascii.escape :: Ascii.openBracket :: (Decimal.ofNat n ++ "m")

/-- The text with a display attribute, which ends with it. -/
def withAttribute (n : Nat) (t : Text) : Text := attributeCode n ++ t ++ attributeCode 0

/-! ## §2. Lines. -/

/-- A line of output. -/
inductive Line where
  /-- A result. -/
  | result (t : Text)
  /-- A remark on the results. -/
  | note (t : Text)
  /-- A report of a failure. -/
  | error (t : Text)
  /-- A decision taken on the way. -/
  | log (t : Text)
  deriving Repr

namespace Line

/-- The line is part of the log. -/
def isLog : Line → Bool
  | .log _ => true
  | _ => false

/-- The line goes to the error stream. -/
def isError : Line → Bool
  | .error _ | .log _ => true
  | _ => false

/-- The line as a terminal gets it. -/
def styled : Line → Text
  | .result t => t
  | .note t => withAttribute 2 ("   " ++ t)
  | .error t => withAttribute 31 ("❌ " ++ t)
  | .log t => t

/-- The line as a stream gets it, its end included. -/
def text (color : Bool) (line : Line) : Text :=
  let whole := line.styled ++ [Ascii.newline]
  if color || line.isLog then whole else plain whole

end Line

/-! ## §3. Streams. -/

/-- A surrogate is shown as an escape. -/
def showSurrogates (t : Text) : Text :=
  t.flatMap fun c => if IsSurrogate c then "\\u" ++ Hexadecimal.lower 4 c else [c]

/-- What was written on the two streams, and what kept the next line from being written. -/
structure Printed where
  output : Text
  errors : Text
  failure? : Option Failure
  deriving Repr

/-- The lines in order, up to the first that cannot be written. -/
def print (color : Bool) : List Line → Printed
  | [] => ⟨[], [], none⟩
  | line :: rest =>
      let t := line.text color
      if line.isError then
        let printed := print color rest
        { printed with errors := showSurrogates t ++ printed.errors }
      else
        match Utf8.firstSurrogates? t with
        | some fault => ⟨[], [], some (.unencodable fault)⟩
        | none =>
            let printed := print color rest
            { printed with output := t ++ printed.output }

end EditorWire.CommandLine
