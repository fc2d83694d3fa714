/-
  EditorWire.Text.Utf32 — UTF-32 in either byte order, surrogates let through.

  A unit is four octets and is its code point.  There are two faults: a unit
  beyond the end of Unicode, and one to three octets left at the end.
-/
import EditorWire.Text.Utf16

namespace EditorWire.Utf32

/-- The number of four octets. -/
def unit (order : ByteOrder) (a b c d : Nat) : Nat :=
  match order with
  | .little => ((d * 0x100 + c) * 0x100 + b) * 0x100 + a
  | .big => ((a * 0x100 + b) * 0x100 + c) * 0x100 + d

/-- The octets of a code point. -/
def encodePoint (order : ByteOrder) (c : Nat) : Octets :=
  let high := [c / 0x1000000, c / 0x10000 % 0x100, c / 0x100 % 0x100, c % 0x100]
  match order with
  | .little => high.reverse
  | .big => high

/-- The octets of a text. -/
def encode (order : ByteOrder) (t : Text) : Octets := t.flatMap (encodePoint order)

/-- Why octets are not UTF-32. -/
inductive Reason where
  /-- A unit beyond U+10FFFF. -/
  | outOfRange
  /-- Fewer than four octets are left. -/
  | truncated
  deriving Repr, DecidableEq

/-- A unit that is no code point, and the octets from it on. -/
structure Fault where
  reason : Reason
  rest : Octets
  deriving Repr, DecidableEq

/-- The text of the octets. -/
def decode (order : ByteOrder) : Octets → Except Fault Text
  | [] => .ok []
  | a :: b :: c :: d :: r =>
      if unit order a b c d < 0x110000 then
        (decode order r).map (unit order a b c d :: ·)
      else .error ⟨.outOfRange, a :: b :: c :: d :: r⟩
  | r => .error ⟨.truncated, r⟩

end EditorWire.Utf32
