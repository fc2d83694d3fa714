/-
  EditorWire.Json.Reader — reading a JSON text.

  The reader goes from left to right and reports the first fault with the text
  from its place on, so a place is what the whole text is longer by.  A value
  reader takes the nesting still allowed and the text, and returns the value and
  the text after it; arrays and objects are read by loops over the reader for
  one level less:

      readValue d (n + 1)  =  readItems (readValue d n), readMembers (readValue d n), …

  Beyond RFC 8259 the names NaN, Infinity and -Infinity are values.  What else a
  reader lets through is its dialect.
-/
import EditorWire.Json.Value
import EditorWire.Number.Decimal

namespace EditorWire.Json

/-! ## §1. Dialects and faults. -/

/-- The parts of a written number. -/
structure Numeral where
  negative : Bool
  /-- The digits in front of the point. -/
  whole : Text
  /-- The digits after the point. -/
  fraction : Text
  /-- The exponent, if there is one. -/
  exponent : Option Int

/-- The number is written without fraction and exponent. -/
def Numeral.isInteger (n : Numeral) : Bool := n.fraction.isEmpty && n.exponent.isNone

/-- How many arrays and objects may lie inside one another. -/
structure NestingLimit where
  /-- So many of them. -/
  levels : Nat
  /-- One that holds nothing takes a level like any other; else it is let through at any place. -/
  countsEmpty : Bool

/-- A number by itself does not count those that hold nothing. -/
instance (levels : Nat) : OfNat NestingLimit levels := ⟨⟨levels, false⟩⟩

/-- What a reader lets through. -/
structure Dialect where
  /-- How many arrays and objects may lie inside one another. -/
  nesting : NestingLimit
  /-- The number is written with too many digits. -/
  isTooLong : Numeral → Bool
  /-- A numeric escape may be half of a surrogate pair. -/
  loneSurrogates : Bool
  /-- A repeated name replaces the earlier binding. -/
  mergesNames : Bool

/-- The levels for arrays and objects. -/
def Dialect.maxNesting (d : Dialect) : Nat := d.nesting.levels

/-- An array or object takes a level also if it holds nothing. -/
def Dialect.countsEmpty (d : Dialect) : Bool := d.nesting.countsEmpty

/-- Why a text is not JSON. -/
inductive Reason where
  /-- No value starts here. -/
  | valueExpected
  /-- Neither a comma nor the end of the array or object stands here. -/
  | commaExpected
  /-- No colon follows the name. -/
  | colonExpected
  /-- No name starts here. -/
  | nameExpected
  /-- Something follows the value. -/
  | extraData
  /-- The string that starts here has no end. -/
  | unterminatedString
  /-- A code point below U+0020 stands in a string as it is. -/
  | controlCharacter
  /-- No escape starts with the code point after the backslash. -/
  | invalidEscape
  /-- Four hexadecimal digits do not follow, or they are half of a pair that is not allowed. -/
  | invalidUnicodeEscape
  /-- The text starts with a byte order mark. -/
  | byteOrderMark
  deriving Repr, DecidableEq

/-- Why a text is not read. -/
inductive ReadFault where
  /-- It is not JSON, as seen at the beginning of `rest`. -/
  | malformed (reason : Reason) (rest : Text)
  /-- A number is written with more digits than are allowed. -/
  | longNumber (digits : Nat)
  /-- More arrays and objects lie inside one another than are allowed. -/
  | tooDeep
  deriving Repr, DecidableEq

/-! ## §2. Blanks and names of values. -/

/-- The blanks of JSON: space, tab, line feed and carriage return. -/
def isBlank (c : Nat) : Bool := c == 0x20 || c == 0x09 || c == 0x0A || c == 0x0D

/-- The text from the first code point on that is not blank. -/
def skipBlank (t : Text) : Text := t.dropWhile isBlank

/-- The values that are written by a name. -/
def namedValues : List (Text × Json) :=
  [("null", .null), ("true", .bool true), ("false", .bool false), ("NaN", .float .nan),
   ("Infinity", .float (.infinity false)), ("-Infinity", .float (.infinity true))]

/-- A value written by its name. -/
def readNamed? (t : Text) : Option (Json × Text) :=
  namedValues.findSome? fun (name, value) => (name.isPrefixOf? t).map fun rest => (value, rest)

/-! ## §3. Numbers. -/

/-- The digits a text starts with, and the text after them. -/
def readDigits (t : Text) : Text × Text :=
  (t.takeWhile CodePoint.isDigit, t.dropWhile CodePoint.isDigit)

/-- A minus sign, if there is one. -/
def readMinus : Text → Bool × Text
  | Ascii.hyphen :: r => (true, r)
  | t => (false, t)

/-- The digits in front of the point: a single zero, or any that do not start with zero. -/
def readWhole? : Text → Option (Text × Text)
  | 0x30 :: r => some ([0x30], r)
  | c :: r =>
      if CodePoint.isDigit c then some (c :: (readDigits r).1, (readDigits r).2) else none
  | [] => none

/-- A point and the digits after it; without a digit there is no fraction. -/
def readFraction : Text → Text × Text
  | Ascii.dot :: r =>
      match readDigits r with
      | ([], _) => ([], Ascii.dot :: r)
      | (digits, rest) => (digits, rest)
  | t => ([], t)

/-- An optional sign of either kind. -/
def readSign : Text → Bool × Text
  | Ascii.hyphen :: r => (true, r)
  | Ascii.plus :: r => (false, r)
  | t => (false, t)

/-- An exponent; without a digit there is none. -/
def readExponent : Text → Option Int × Text
  | [] => (none, [])
  | c :: r =>
      if c = 0x65 ∨ c = 0x45 then
        match readDigits (readSign r).2 with
        | ([], _) => (none, c :: r)
        | (digits, rest) =>
            let size : Int := Decimal.value digits
            (some (if (readSign r).1 then -size else size), rest)
      else (none, c :: r)

/-- The longest number a text starts with. -/
def readNumeral? (t : Text) : Option (Numeral × Text) :=
  let (negative, r) := readMinus t
  match readWhole? r with
  | none => none
  | some (whole, r) =>
      let (fraction, r) := readFraction r
      let (exponent, r) := readExponent r
      some (⟨negative, whole, fraction, exponent⟩, r)

/-- The value of a written number: an integer if it has neither fraction nor exponent. -/
def Numeral.value (d : Dialect) (n : Numeral) : Except ReadFault Json :=
  if d.isTooLong n then .error (.longNumber n.whole.length)
  else if n.isInteger then
    let size : Int := Decimal.value n.whole
    .ok (.int (if n.negative then -size else size))
  else
    .ok (.float (Binary64.ofDecimal n.negative (Decimal.value (n.whole ++ n.fraction))
      (n.exponent.getD 0 - n.fraction.length)))

/-! ## §4. Strings. -/

/-- The number of four hexadecimal digits. -/
def hexQuad? (a b c d : Nat) : Option Nat :=
  match CodePoint.hexValue? a, CodePoint.hexValue? b, CodePoint.hexValue? c,
      CodePoint.hexValue? d with
  | some a, some b, some c, some d => some (((a * 16 + b) * 16 + c) * 16 + d)
  | _, _, _, _ => none

/-- What an escape of one code point stands for. -/
def shortEscape? (c : Nat) : Option Nat :=
  if c = Ascii.quote ∨ c = Ascii.backslash ∨ c = Ascii.slash then some c
  else if c = 0x62 then some 0x08
  else if c = 0x66 then some 0x0C
  else if c = 0x6E then some 0x0A
  else if c = 0x72 then some 0x0D
  else if c = 0x74 then some 0x09
  else none

/-- What a string is written with: a code point by itself, or the number of a numeric escape. -/
inductive Piece where
  /-- Written as it is or by an escape of one code point. -/
  | plain (c : Nat)
  /-- Written by four hexadecimal digits. -/
  | numeric (n : Nat)
  deriving Repr, DecidableEq

/-- The pieces from behind the opening quote up to the closing one; `start` is the text from
the opening quote on. -/
def readPieces (start : Text) : Text → Except ReadFault (List Piece × Text)
  | [] => .error (.malformed .unterminatedString start)
  | c :: r =>
      if c = Ascii.quote then .ok ([], r)
      else if c = Ascii.backslash then
        match r with
        | [] => .error (.malformed .unterminatedString start)
        | e :: r' =>
            if e = Ascii.u then
              match r' with
              | x₁ :: x₂ :: x₃ :: x₄ :: y :: r'' =>
                  match hexQuad? x₁ x₂ x₃ x₄ with
                  | some n =>
                      (readPieces start (y :: r'')).map fun (ps, rest) => (.numeric n :: ps, rest)
                  | none => .error (.malformed .invalidUnicodeEscape (e :: r'))
              | _ => .error (.malformed .invalidUnicodeEscape (e :: r'))
            else
              match shortEscape? e with
              | some n => (readPieces start r').map fun (ps, rest) => (.plain n :: ps, rest)
              | none => .error (.malformed .invalidEscape (c :: r))
      else if c < 0x20 then .error (.malformed .controlCharacter (c :: r))
      else (readPieces start r).map fun (ps, rest) => (.plain c :: ps, rest)

/-- The text of pieces: two numeric escapes side by side that are a surrogate pair stand for the
code point of the pair, every other piece for its own. -/
def joinPieces : List Piece → Text
  | [] => []
  | .plain c :: r => c :: joinPieces r
  | .numeric n :: .numeric m :: r =>
      if isHighSurrogate n && isLowSurrogate m then joinSurrogates n m :: joinPieces r
      else n :: joinPieces (.numeric m :: r)
  | .numeric n :: r => n :: joinPieces r

/-- A string from behind its opening quote on; `start` is the text from the quote on. -/
def readString (d : Dialect) (start body : Text) : Except ReadFault (Text × Text) := do
  let (pieces, rest) ← readPieces start body
  let t := joinPieces pieces
  if !d.loneSurrogates && t.any (fun c => decide (IsSurrogate c)) then
    .error (.malformed .invalidUnicodeEscape start)
  else .ok (t, rest)

/-! ## §5. Arrays and objects. -/

/-- A reader of the values an array or object holds. -/
abbrev ItemReader := Text → Except ReadFault (Json × Text)

/-- The items of an array from an item on, read by `item`; each takes one of the rounds. -/
def readItems (item : ItemReader) :
    (rounds : Nat) → Text → Except ReadFault (List Json × Text)
  | 0, t => .error (.malformed .valueExpected t)
  | rounds + 1, t => do
      let (v, r) ← item t
      match skipBlank r with
      | Ascii.closeBracket :: r => .ok ([v], r)
      | Ascii.comma :: r => do
          let (vs, r) ← readItems item rounds (skipBlank r)
          .ok (v :: vs, r)
      | r => .error (.malformed .commaExpected r)

/-- An array from behind its opening bracket on. -/
def readArray (item : ItemReader) (t : Text) : Except ReadFault (List Json × Text) :=
  match skipBlank t with
  | Ascii.closeBracket :: r => .ok ([], r)
  | r => readItems item (r.length + 1) r

/-- A member: its name, a colon and its value. -/
def readMember (d : Dialect) (item : ItemReader) :
    Text → Except ReadFault ((Text × Json) × Text)
  | Ascii.quote :: r => do
      let (name, r) ← readString d (Ascii.quote :: r) r
      match skipBlank r with
      | Ascii.colon :: r => do
          let (v, r) ← item (skipBlank r)
          .ok ((name, v), r)
      | r => .error (.malformed .colonExpected r)
  | t => .error (.malformed .nameExpected t)

/-- The members of an object from a name on; each takes one of the rounds. -/
def readMembers (d : Dialect) (item : ItemReader) :
    (rounds : Nat) → Text → Except ReadFault (List (Text × Json) × Text)
  | 0, t => .error (.malformed .nameExpected t)
  | rounds + 1, t => do
      let (m, r) ← readMember d item t
      match skipBlank r with
      | Ascii.closeBrace :: r => .ok ([m], r)
      | Ascii.comma :: r => do
          let (ms, r) ← readMembers d item rounds (skipBlank r)
          .ok (m :: ms, r)
      | r => .error (.malformed .commaExpected r)

/-- An object from behind its opening brace on. -/
def readObject (d : Dialect) (item : ItemReader) (t : Text) :
    Except ReadFault (List (Text × Json) × Text) :=
  match skipBlank t with
  | Ascii.closeBrace :: r => .ok ([], r)
  | r => readMembers d item (r.length + 1) r

/-- The object of the members read. -/
def objectOf (d : Dialect) (members : List (Text × Json)) : Json :=
  .object (if d.mergesNames then Bindings.ofList members else members)

/-! ## §6. Values and texts. -/

/-- A value that is neither string, array nor object. -/
def readAtom (d : Dialect) (t : Text) : Except ReadFault (Json × Text) :=
  match readNamed? t with
  | some result => .ok result
  | none =>
      match readNumeral? t with
      | some (n, rest) => (n.value d).map fun v => (v, rest)
      | none => .error (.malformed .valueExpected t)

/-- The reader where no further nesting is allowed. -/
def readTooDeep : ItemReader := fun _ => .error .tooDeep

/-- A value at the beginning of a text, `nesting` arrays and objects being still allowed.  Where
none is, one is too deep as soon as it begins if those that hold nothing are counted, else as soon
as something is in it. -/
def readValue (d : Dialect) : (nesting : Nat) → Text → Except ReadFault (Json × Text)
  | _, Ascii.quote :: r =>
      (readString d (Ascii.quote :: r) r).map fun (t, rest) => (.string t, rest)
  | 0, Ascii.openBracket :: r =>
      if d.countsEmpty then .error .tooDeep
      else (readArray readTooDeep r).map fun (items, rest) => (.array items, rest)
  | 0, Ascii.openBrace :: r =>
      if d.countsEmpty then .error .tooDeep
      else (readObject d readTooDeep r).map fun (members, rest) => (objectOf d members, rest)
  | nesting + 1, Ascii.openBracket :: r =>
      (readArray (readValue d nesting) r).map fun (items, rest) => (.array items, rest)
  | nesting + 1, Ascii.openBrace :: r =>
      (readObject d (readValue d nesting) r).map fun (members, rest) => (objectOf d members, rest)
  | _, t => readAtom d t

/-- The value of a JSON text: one value with blanks around it. -/
def read (d : Dialect) (t : Text) : Except ReadFault Json := do
  let (v, r) ← readValue d d.maxNesting (skipBlank t)
  match skipBlank r with
  | [] => .ok v
  | r => .error (.malformed .extraData r)

end EditorWire.Json
