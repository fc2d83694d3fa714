/-
  EditorWire.Text.Utf16 — UTF-16 in either byte order, surrogates let through.

  A unit is two octets.  A high surrogate followed by a low one is read as the
  code point the pair stands for; every other unit is a code point by itself, a
  lone surrogate included.  So the only fault is a single octet left at the end.
-/
import EditorWire.Text.CodePoint

namespace EditorWire

/-- Which octet of a unit comes first. -/
inductive ByteOrder where
  /-- The low one. -/
  | little
  /-- The high one. -/
  | big
  deriving Repr, DecidableEq

namespace Utf16

/-- The unit of two octets. -/
def unit (order : ByteOrder) (a b : Nat) : Nat :=
  match order with
  | .little => b * 0x100 + a
  | .big => a * 0x100 + b

/-- The octets of a unit. -/
def encodeUnit (order : ByteOrder) (n : Nat) : Octets :=
  match order with
  | .little => [n % 0x100, n / 0x100]
  | .big => [n / 0x100, n % 0x100]

/-- The units of a code point: a pair of surrogates beyond U+FFFF. -/
def units (c : Nat) : List Nat :=
  if c < 0x10000 then [c]
  else [0xD800 + (c - 0x10000) / 0x400, 0xDC00 + (c - 0x10000) % 0x400]

/-- The octets of a text. -/
def encode (order : ByteOrder) (t : Text) : Octets :=
  t.flatMap fun c => (units c).flatMap (encodeUnit order)

/-- The octets from the one on that is no half of a unit. -/
structure Fault where
  rest : Octets
  deriving Repr, DecidableEq

/-- The text of the octets. -/
def decode (order : ByteOrder) : Octets → Except Fault Text
  | [] => .ok []
  | [a] => .error ⟨[a]⟩
  | a :: b :: r =>
      let first := unit order a b
      match r with
      | c :: d :: r' =>
          if isHighSurrogate first && isLowSurrogate (unit order c d) then
            (decode order r').map (joinSurrogates first (unit order c d) :: ·)
          else (decode order (c :: d :: r')).map (first :: ·)
      | r => (decode order r).map (first :: ·)

end Utf16

end EditorWire
