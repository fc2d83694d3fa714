/-
  EditorWire.Number.FloatText — how a number of the binary format is written.

  The digits are the fewest that read back.  A style says what is left: which
  magnitudes are written without an exponent, how many digits an exponent has at
  least, and what the values that are no numbers are called.
-/
import EditorWire.Number.Decimal
import EditorWire.Number.Shortest

namespace EditorWire

/-- The choices a format makes about written numbers. -/
structure FloatStyle where
  /-- The lowest decimal exponent written without an exponent part. -/
  lowestPlain : Int
  /-- The first decimal exponent beyond those written without an exponent part. -/
  beyondPlain : Int
  /-- The least number of digits of an exponent. -/
  exponentDigits : Nat
  /-- The name of what is not a number. -/
  nanName : Text
  /-- The name of infinity, its sign left out. -/
  infinityName : Text

namespace FloatStyle

/-- `n` zeros. -/
def zeros (n : Nat) : Text := List.replicate n 0x30

/-- Digits with a point after the first `point` of them, zeros filled in on either side. -/
def plain (digits : Text) (point : Int) : Text :=
  if point ≤ 0 then "0." ++ zeros (-point).toNat ++ digits
  else if digits.length ≤ point.toNat then
    digits ++ zeros (point.toNat - digits.length) ++ ".0"
  else digits.take point.toNat ++ [Ascii.dot] ++ digits.drop point.toNat

/-- Digits with a point after the first of them, and the decimal exponent. -/
def scientific (style : FloatStyle) (digits : Text) (exponent : Int) : Text :=
  let sign := if exponent < 0 then Ascii.hyphen else Ascii.plus
  let written := Decimal.ofNat exponent.natAbs
  let fraction := if digits.length ≤ 1 then [] else Ascii.dot :: digits.drop 1
  digits.take 1 ++ fraction ++ [0x65, sign]
    ++ zeros (style.exponentDigits - written.length) ++ written

/-- A number without its sign. -/
def magnitude (style : FloatStyle) (significand : Nat) (exponent : Int) : Text :=
  if significand = 0 then "0.0"
  else
    let (d, e) := Shortest.digits significand exponent
    let digits := Decimal.ofNat d
    let leading := e + digits.length - 1
    if style.lowestPlain ≤ leading ∧ leading < style.beyondPlain then plain digits (leading + 1)
    else style.scientific digits leading

/-- The sign in front of a text. -/
def signed (negative : Bool) (t : Text) : Text := if negative then Ascii.hyphen :: t else t

/-- The written form of a number. -/
def write (style : FloatStyle) : Binary64 → Text
  | .nan => style.nanName
  | .infinity negative => signed negative style.infinityName
  | .finite negative m q => signed negative (style.magnitude m q)

end FloatStyle

end EditorWire
