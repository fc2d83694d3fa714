/-
  EditorWire.Number.Decimal — decimal and hexadecimal digit texts.

  `Decimal.ofNat` writes a natural number without leading zeros and
  `Decimal.value` reads digits back; `ofNat` and `ofInt` are what every number
  in a message or in a JSON text is written with.
-/
import EditorWire.Text.CodePoint

namespace EditorWire

namespace Decimal

/-- The value of decimal digits, the highest first. -/
def value (digits : Text) : Nat := digits.foldl (fun n c => n * 10 + (c - 0x30)) 0

/-- The digits of `n` in front of `after`, the lowest digit nearest to it. -/
def ofNatOnto (n : Nat) (after : Text) : Text :=
  if n < 10 then (0x30 + n) :: after
  else ofNatOnto (n / 10) ((0x30 + n % 10) :: after)
termination_by n
decreasing_by omega

/-- The decimal digits of a natural number. -/
def ofNat (n : Nat) : Text := ofNatOnto n []

/-- The decimal digits of an integer, with a minus sign in front if it is negative. -/
def ofInt (i : Int) : Text :=
  if i < 0 then Ascii.hyphen :: ofNat i.natAbs else ofNat i.natAbs

theorem value_append_digit (digits : Text) (d : Nat) :
    value (digits ++ [0x30 + d]) = value digits * 10 + d := by
  simp [value]

/-- The digits written in front of a text are the digits of the number and that text. -/
theorem ofNatOnto_append (n : Nat) (after : Text) : ofNatOnto n after = ofNat n ++ after := by
  unfold ofNat
  induction n using Nat.strongRecOn generalizing after with
  | _ n ih =>
    rw [ofNatOnto, ofNatOnto.eq_1 n []]
    by_cases h : n < 10
    · simp [h]
    · simp only [h, if_false]
      rw [ih (n / 10) (by omega), ih (n / 10) (by omega) [0x30 + n % 10]]
      simp

/-- A number of two or more digits is written as its upper digits and the lowest one. -/
theorem ofNat_of_ge {n : Nat} (h : 10 ≤ n) : ofNat n = ofNat (n / 10) ++ [0x30 + n % 10] := by
  rw [ofNat, ofNatOnto, if_neg (by omega), ofNatOnto_append]

/-- What is written reads back. -/
theorem value_ofNat (n : Nat) : value (ofNat n) = n := by
  induction n using Nat.strongRecOn with
  | _ n ih =>
    by_cases h : n < 10
    · rw [ofNat, ofNatOnto, if_pos h]; simp [value]
    · rw [ofNat_of_ge (by omega), value_append_digit, ih (n / 10) (by omega)]; omega

end Decimal

namespace Hexadecimal

/-- The lowest `width` hexadecimal digits of a number in lower case. -/
def lower : (width : Nat) → Nat → Text
  | 0, _ => []
  | width + 1, n => lower width (n / 16) ++ [CodePoint.lowerHexDigit (n % 16)]

/-- The two upper-case hexadecimal digits of an octet. -/
def upperOctet (b : Nat) : Text :=
  [CodePoint.upperHexDigit (b / 16), CodePoint.upperHexDigit (b % 16)]

end Hexadecimal

end EditorWire
