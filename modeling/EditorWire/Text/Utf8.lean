/-
  EditorWire.Text.Utf8 — UTF-8, strict and with surrogates let through.

  `encode` writes every code point by the bit layout of UTF-8, surrogates too;
  `firstSurrogates?` is what a strict encoder reports before it writes any.
  `decode` reads octets back and says why and where it stops:

      invalid start          no sequence starts with the octet
      invalid continuation   the next octet cannot go on with the sequence
      unexpected end         the octets end inside a sequence

  A fault holds the octets from the faulty sequence on, so its position is what
  the whole input is longer by.
-/
import EditorWire.Text.CodePoint

namespace EditorWire.Utf8

/-! ## §1. Encoding. -/

/-- The octets of one code point. -/
def encodePoint (c : Nat) : Octets :=
  if c < 0x80 then [c]
  else if c < 0x800 then [0xC0 + c / 0x40, 0x80 + c % 0x40]
  else if c < 0x10000 then [0xE0 + c / 0x1000, 0x80 + c / 0x40 % 0x40, 0x80 + c % 0x40]
  else [0xF0 + c / 0x40000, 0x80 + c / 0x1000 % 0x40, 0x80 + c / 0x40 % 0x40, 0x80 + c % 0x40]

/-- The octets of a text, a lone surrogate written like any other code point. -/
def encode (t : Text) : Octets := t.flatMap encodePoint

/-- The place of a text that UTF-8 has no form for. -/
structure Unencodable where
  /-- Index of the first surrogate. -/
  start : Nat
  /-- How many surrogates stand side by side there. -/
  width : Nat
  /-- The first of them. -/
  first : Nat
  deriving Repr, DecidableEq

/-- The first run of surrogates of a text, if it has one. -/
def firstSurrogates? (t : Text) : Option Unencodable :=
  let (before, rest) := Text.cutAt (fun c => !decide (IsScalar c)) t
  match rest with
  | [] => none
  | c :: _ => some ⟨before.length, (Text.cutAt (fun c => decide (IsScalar c)) rest).1.length, c⟩

/-! ## §2. Decoding. -/

/-- Why octets are not UTF-8. -/
inductive Reason where
  /-- No sequence starts with the octet. -/
  | invalidStart
  /-- The octet after the faulty ones cannot go on with the sequence. -/
  | invalidContinuation
  /-- The octets end inside a sequence. -/
  | unexpectedEnd
  deriving Repr, DecidableEq

/-- A sequence that is not UTF-8. -/
structure Fault where
  reason : Reason
  /-- How many octets the fault covers. -/
  width : Nat
  /-- The octets from the fault on. -/
  rest : Octets
  deriving Repr, DecidableEq

/-- An octet that goes on with a sequence. -/
def isTail (b : Nat) : Bool := 0x80 ≤ b && b ≤ 0xBF

/-- An octet that may follow the first of three: it rules out overlong forms and surrogates. -/
def isSecondOfThree (a b : Nat) : Bool :=
  isTail b && !(a == 0xE0 && b < 0xA0) && !(a == 0xED && 0xA0 ≤ b)

/-- An octet that may follow the first of four: it rules out overlong forms and numbers
beyond the end of Unicode. -/
def isSecondOfFour (a b : Nat) : Bool :=
  isTail b && !(a == 0xF0 && b < 0x90) && !(a == 0xF4 && 0x90 ≤ b)

/-- The octets are a surrogate written by the bit layout of UTF-8. -/
def isSurrogateForm (a b c : Nat) : Bool :=
  a == 0xED && 0xA0 ≤ b && isTail b && isTail c

/-- The code point of a sequence of two. -/
def point2 (a b : Nat) : Nat := (a - 0xC0) * 0x40 + (b - 0x80)

/-- The code point of a sequence of three. -/
def point3 (a b c : Nat) : Nat :=
  (a - 0xE0) * 0x1000 + (b - 0x80) * 0x40 + (c - 0x80)

/-- The code point of a sequence of four. -/
def point4 (a b c d : Nat) : Nat :=
  (a - 0xF0) * 0x40000 + (b - 0x80) * 0x1000 + (c - 0x80) * 0x40 + (d - 0x80)

/-- The text of the octets; with `surrogates` the three octets of a surrogate are read too. -/
def decode (surrogates : Bool) : Octets → Except Fault Text
  | [] => .ok []
  | a :: r =>
      if a < 0x80 then (decode surrogates r).map (a :: ·)
      else if a < 0xC2 then .error ⟨.invalidStart, 1, a :: r⟩
      else if a < 0xE0 then
        match r with
        | [] => .error ⟨.unexpectedEnd, 1, a :: r⟩
        | b :: r' =>
            if isTail b then (decode surrogates r').map (point2 a b :: ·)
            else .error ⟨.invalidContinuation, 1, a :: r⟩
      else if a < 0xF0 then
        match r with
        | [] => .error ⟨.unexpectedEnd, 1, a :: r⟩
        | [b] =>
            if isSecondOfThree a b then .error ⟨.unexpectedEnd, 2, a :: r⟩
            else .error ⟨.invalidContinuation, 1, a :: r⟩
        | b :: c :: r' =>
            if surrogates && isSurrogateForm a b c then
              (decode surrogates r').map (point3 a b c :: ·)
            else if !isSecondOfThree a b then .error ⟨.invalidContinuation, 1, a :: r⟩
            else if !isTail c then .error ⟨.invalidContinuation, 2, a :: r⟩
            else (decode surrogates r').map (point3 a b c :: ·)
      else if a < 0xF5 then
        match r with
        | [] => .error ⟨.unexpectedEnd, 1, a :: r⟩
        | [b] =>
            if isSecondOfFour a b then .error ⟨.unexpectedEnd, 2, a :: r⟩
            else .error ⟨.invalidContinuation, 1, a :: r⟩
        | [b, c] =>
            if !isSecondOfFour a b then .error ⟨.invalidContinuation, 1, a :: r⟩
            else if !isTail c then .error ⟨.invalidContinuation, 2, a :: r⟩
            else .error ⟨.unexpectedEnd, 3, a :: r⟩
        | b :: c :: d :: r' =>
            if !isSecondOfFour a b then .error ⟨.invalidContinuation, 1, a :: r⟩
            else if !isTail c then .error ⟨.invalidContinuation, 2, a :: r⟩
            else if !isTail d then .error ⟨.invalidContinuation, 3, a :: r⟩
            else (decode surrogates r').map (point4 a b c d :: ·)
      else .error ⟨.invalidStart, 1, a :: r⟩

/-- The text the octets are the strict UTF-8 form of, if they are one. -/
def decode? (octets : Octets) : Option Text := (decode false octets).toOption

end EditorWire.Utf8
