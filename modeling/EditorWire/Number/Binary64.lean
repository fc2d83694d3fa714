/-
  EditorWire.Number.Binary64 — the numbers a JSON fraction is rounded to.

  A value of the format is an exact `± significand · 2 ^ exponent`, an infinity
  or not a number.  `ofRatio` rounds a quotient to the nearest of them, a tie to
  the even significand, and `ofDecimal` does so for a decimal numeral.  All of
  it is integer arithmetic.
-/
namespace EditorWire

/-- A number of 53 significant bits. -/
inductive Binary64 where
  /-- Not a number. -/
  | nan
  /-- Larger in size than every finite number. -/
  | infinity (negative : Bool)
  /-- `± significand · 2 ^ exponent`; a zero keeps its sign. -/
  | finite (negative : Bool) (significand : Nat) (exponent : Int)
  deriving Repr, DecidableEq

namespace Binary64

/-- The lowest exponent, that of the subnormal numbers. -/
def minExponent : Int := -1074

/-- The highest exponent of a finite number. -/
def maxExponent : Int := 971

/-- The number of digits of a significand in base 2. -/
def precision : Nat := 53

/-- The number is one of the format: a significand of at most 53 bits, and of exactly 53 unless
the exponent is the lowest. -/
def IsCanonical : Binary64 → Prop
  | .nan => True
  | .infinity _ => True
  | .finite _ m q =>
      m < Nat.pow 2 precision ∧ minExponent ≤ q ∧ q ≤ maxExponent
        ∧ (Nat.pow 2 (precision - 1) ≤ m ∨ q = minExponent)

/-- Neither an infinity nor `nan`. -/
def isFinite : Binary64 → Bool
  | .finite .. => true
  | _ => false

/-! ## §1. Rounding. -/

/-- The quotient rounded to the nearest natural number, a tie to the even one. -/
def roundHalfEven (num den : Nat) : Nat :=
  let floor := num / den
  let rest := num % den
  if 2 * rest < den then floor
  else if den < 2 * rest then floor + 1
  else if floor % 2 = 0 then floor else floor + 1

/-- The exponent that gives the quotient a significand of 53 bits, or the lowest exponent. -/
def scaleOf (num den : Nat) : Int :=
  let e : Int := (Nat.log2 num : Int) - Nat.log2 den
  let atLeast : Bool :=
    if 0 ≤ e then den * Nat.pow 2 e.toNat ≤ num else den ≤ num * Nat.pow 2 (-e).toNat
  max minExponent ((if atLeast then e else e - 1) - (precision - 1))

/-- The number of the format nearest to a quotient of positive numbers. -/
def ofRatio (negative : Bool) (num den : Nat) : Binary64 :=
  let q := scaleOf num den
  let m := if 0 ≤ q then roundHalfEven num (den * Nat.pow 2 q.toNat)
           else roundHalfEven (num * Nat.pow 2 (-q).toNat) den
  let (m, q) :=
    if m = Nat.pow 2 precision then (Nat.pow 2 (precision - 1), q + 1) else (m, q)
  if maxExponent < q then .infinity negative else .finite negative m q

/-- The zero of a sign. -/
def zero (negative : Bool) : Binary64 := .finite negative 0 minExponent

/-- The number of the format nearest to `± digits · 10 ^ exponent`.  Numerals far outside the
range are settled by their size alone. -/
def ofDecimal (negative : Bool) (digits : Nat) (exponent : Int) : Binary64 :=
  if digits = 0 then zero negative
  else if 1100 < (Nat.log2 digits : Int) + 3 * exponent ∧ 0 ≤ exponent then .infinity negative
  else if (Nat.log2 digits : Int) + 1 + 3 * exponent < -1100 ∧ exponent < 0 then zero negative
  else if 0 ≤ exponent then ofRatio negative (digits * Nat.pow 10 exponent.toNat) 1
  else ofRatio negative digits (Nat.pow 10 (-exponent).toNat)

/-! ## §2. Numerical equality. -/

/-- The exact value as an integer over a power of two. -/
def scaled : Binary64 → Option (Int × Nat)
  | .finite negative m q =>
      let n : Int := if negative then -m else m
      if 0 ≤ q then some (n * Int.ofNat (Nat.pow 2 q.toNat), 1)
      else some (n, Nat.pow 2 (-q).toNat)
  | _ => none

/-- The number is that integer. -/
def equalsInt (x : Binary64) (i : Int) : Bool :=
  match x.scaled with
  | some (n, d) => n == i * d
  | none => false

/-- Equality of values: the zeros are equal, and `nan` is taken for one value. -/
def sameValue : Binary64 → Binary64 → Bool
  | .nan, .nan => true
  | .infinity a, .infinity b => a == b
  | x, y =>
      match x.scaled, y.scaled with
      | some (n, d), some (m, e) => n * e == m * d
      | _, _ => false

end Binary64

end EditorWire
