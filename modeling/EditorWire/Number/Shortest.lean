/-
  EditorWire.Number.Shortest — the fewest decimal digits that read back.

  The reals that round to a number form an interval around it, whose ends belong
  to it if the significand is even.  For one digit, two digits, … the two points
  of that decimal grid next to the number are tried: the first grid with a point
  in the interval wins, of two points the nearer one, of two equally near ones
  the one with an even last digit.
-/
import EditorWire.Number.Binary64

namespace EditorWire.Shortest

/-- A positive number and the ends of its interval, all over one denominator. -/
structure Interval where
  low : Nat
  value : Nat
  high : Nat
  den : Nat
  /-- The ends belong to the interval. -/
  closed : Bool
  deriving Repr

/-- The interval of `m · 2 ^ q`.  Below a power of two the numbers lie twice as dense. -/
def interval (m : Nat) (q : Int) : Interval :=
  let below :=
    if m = Nat.pow 2 (Binary64.precision - 1) ∧ Binary64.minExponent < q then 1 else 2
  let num := if 2 ≤ q then Nat.pow 2 (q - 2).toNat else 1
  let den := if 2 ≤ q then 1 else Nat.pow 2 (2 - q).toNat
  ⟨(4 * m - below) * num, 4 * m * num, (4 * m + 2) * num, den, m % 2 == 0⟩

/-- A decimal grid: its points are the multiples of `10 ^ exponent`. -/
def gridFactors (exponent : Int) : Nat × Nat :=
  if 0 ≤ exponent then (Nat.pow 10 exponent.toNat, 1) else (1, Nat.pow 10 (-exponent).toNat)

/-- The grid point `d · 10 ^ exponent` next to the number, if there is one in the interval. -/
def hit? (i : Interval) (exponent : Int) : Option Nat :=
  let (up, down) := gridFactors exponent
  let unit := up * i.den
  let d := i.value * down / unit
  let rest := i.value * down % unit
  let lowIn := if i.closed then i.low * down ≤ d * unit else i.low * down < d * unit
  let highIn := if i.closed then (d + 1) * unit ≤ i.high * down else (d + 1) * unit < i.high * down
  if lowIn then
    if highIn then
      if 2 * rest < unit then some d
      else if unit < 2 * rest then some (d + 1)
      else if d % 2 = 0 then some d else some (d + 1)
    else some d
  else if highIn then some (d + 1) else none

/-- The exponent `k` with `10 ^ (k - 1) ≤ value < 10 ^ k`. -/
def magnitude (i : Interval) : Int :=
  let bits : Int := (Nat.log2 i.value : Int) - Nat.log2 i.den
  let guess := bits * 30103 / 100000
  let reaches (k : Int) : Bool :=
    let (up, down) := gridFactors k
    up * i.den ≤ i.value * down
  if reaches (guess + 1) then guess + 2
  else if reaches guess then guess + 1
  else if reaches (guess - 1) then guess
  else guess - 1

/-- Digits tried from `n` up to 17, which always suffice. -/
def search (i : Interval) (k : Int) : (tries n : Nat) → Nat × Int
  | 0, _ => (i.value / i.den, 0)
  | tries + 1, n =>
      match hit? i (k - n) with
      | some d => if d = Nat.pow 10 n then (1, k) else (d, k - n)
      | none => search i k tries (n + 1)

/-- The shortest `digits · 10 ^ exponent` that rounds to the positive number `m · 2 ^ q`. -/
def digits (m : Nat) (q : Int) : Nat × Int :=
  let i := interval m q
  search i (magnitude i) 17 1

end EditorWire.Shortest
