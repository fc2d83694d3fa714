/-
  EditorWire.Proofs.Number.Shortest — the digits that are found read back.

  The search for the fewest digits goes through finer and finer decimal grids.
  Whatever grid point it stops at lies in the interval of the number, so it is
  rounded to the number; and it stops after 17 digits at the latest, for a grid
  that fine has a step smaller than the interval is wide:

      10 ^ (k − 17)  ≤  10⁻¹⁶ · m · 2 ^ q  <  3/4 · 2 ^ q        m = 2 ^ 52
      10 ^ (k − 17)  ≤  10⁻¹⁶ · m · 2 ^ q  <        2 ^ q        m < 2 ^ 53

  Main result:
    * `digits_roundsTo` — the digits of a number of the format are in its interval.
-/
import EditorWire.Number.Shortest
import EditorWire.Proofs.Number.Rounding

namespace EditorWire.Shortest

open Binary64 (Inside RoundsTo lowEnd highEnd zpow_eq_pow_toNat zpow_eq_inv_pow_toNat)

/-! ## §1. Grid points compared without fractions. -/

theorem gridFactors_pos (e : ℤ) : 0 < (gridFactors e).1 ∧ 0 < (gridFactors e).2 := by
  unfold gridFactors
  split
  · exact ⟨Nat.pow_pos (by decide), one_pos⟩
  · exact ⟨one_pos, Nat.pow_pos (by decide)⟩

/-- The factors of a grid are its step. -/
theorem gridFactors_div (e : ℤ) : ((gridFactors e).1 : ℚ) / (gridFactors e).2 = 10 ^ e := by
  unfold gridFactors
  split
  · next he =>
    rw [zpow_eq_pow_toNat he, Nat.pow_eq]
    push_cast
    rw [div_one]
  · next he =>
    rw [zpow_eq_inv_pow_toNat (by omega), Nat.pow_eq]
    push_cast
    rw [one_div]

/-- A grid point as a quotient over the factors. -/
theorem gridPoint_eq (d : ℕ) (e : ℤ) :
    (d : ℚ) * 10 ^ e = d * (gridFactors e).1 / (gridFactors e).2 := by
  rw [← gridFactors_div, mul_div_assoc]

theorem div_lt_gridPoint_iff {x den d : ℕ} {e : ℤ} (hden : 0 < den) :
    (x : ℚ) / den < d * 10 ^ e ↔ x * (gridFactors e).2 < d * ((gridFactors e).1 * den) := by
  have hden' : (0 : ℚ) < den := by exact_mod_cast hden
  have hdown : (0 : ℚ) < (gridFactors e).2 := by exact_mod_cast (gridFactors_pos e).2
  rw [gridPoint_eq, div_lt_div_iff₀ hden' hdown, ← Nat.cast_lt (α := ℚ)]
  push_cast
  rw [mul_assoc]

theorem gridPoint_lt_div_iff {x den d : ℕ} {e : ℤ} (hden : 0 < den) :
    (d : ℚ) * 10 ^ e < x / den ↔ d * ((gridFactors e).1 * den) < x * (gridFactors e).2 := by
  have hden' : (0 : ℚ) < den := by exact_mod_cast hden
  have hdown : (0 : ℚ) < (gridFactors e).2 := by exact_mod_cast (gridFactors_pos e).2
  rw [gridPoint_eq, div_lt_div_iff₀ hdown hden', ← Nat.cast_lt (α := ℚ)]
  push_cast
  rw [mul_assoc]

theorem div_eq_gridPoint_iff {x den d : ℕ} {e : ℤ} (hden : 0 < den) :
    (x : ℚ) / den = d * 10 ^ e ↔ x * (gridFactors e).2 = d * ((gridFactors e).1 * den) := by
  rw [eq_iff_le_not_lt, not_lt, ← not_lt, gridPoint_lt_div_iff hden, ← not_lt,
    div_lt_gridPoint_iff hden]
  omega

/-! ## §2. What the search stops at. -/

/-- A number strictly between the ends of its interval. -/
structure Interval.IsProper (i : Interval) : Prop where
  low_lt : i.low < i.value
  lt_high : i.value < i.high
  den_pos : 0 < i.den

/-- The grid point `d · 10 ^ e` lies in the interval. -/
def Interval.Holds (i : Interval) (d : ℕ) (e : ℤ) : Prop :=
  Inside (i.closed = true) (i.low / i.den) (d * 10 ^ e) (i.high / i.den)

theorem Interval.holds_iff {i : Interval} (hi : i.IsProper) {d : ℕ} {e : ℤ} :
    i.Holds d e ↔
      (i.low * (gridFactors e).2 < d * ((gridFactors e).1 * i.den)
        ∨ (i.closed = true ∧ i.low * (gridFactors e).2 = d * ((gridFactors e).1 * i.den)))
      ∧ (d * ((gridFactors e).1 * i.den) < i.high * (gridFactors e).2
        ∨ (i.closed = true ∧ d * ((gridFactors e).1 * i.den) = i.high * (gridFactors e).2)) := by
  unfold Interval.Holds Inside
  rw [div_lt_gridPoint_iff hi.den_pos, div_eq_gridPoint_iff hi.den_pos,
    gridPoint_lt_div_iff hi.den_pos, eq_comm (a := (d : ℚ) * 10 ^ e),
    div_eq_gridPoint_iff hi.den_pos, eq_comm (a := i.high * (gridFactors e).2)]

/-- The two points of a grid next to the number, those in the interval marked, and the one taken. -/
def pick (lowIn highIn : Prop) [Decidable lowIn] [Decidable highIn] (floor rest unit : ℕ) :
    Option ℕ :=
  if lowIn then
    if highIn then
      if 2 * rest < unit then some floor
      else if unit < 2 * rest then some (floor + 1)
      else if floor % 2 = 0 then some floor else some (floor + 1)
    else some floor
  else if highIn then some (floor + 1) else none

theorem pick_eq_some {lowIn highIn : Prop} [Decidable lowIn] [Decidable highIn]
    {floor rest unit d : ℕ} (h : pick lowIn highIn floor rest unit = some d) :
    (lowIn ∧ floor = d) ∨ (highIn ∧ floor + 1 = d) := by
  unfold pick at h
  split at h
  · next hlow =>
    split at h
    · next hhigh =>
      split at h
      · exact .inl ⟨hlow, Option.some.inj h⟩
      split at h
      · exact .inr ⟨hhigh, Option.some.inj h⟩
      split at h
      · exact .inl ⟨hlow, Option.some.inj h⟩
      · exact .inr ⟨hhigh, Option.some.inj h⟩
    · exact .inl ⟨hlow, Option.some.inj h⟩
  · split at h
    · next hhigh => exact .inr ⟨hhigh, Option.some.inj h⟩
    · cases h

theorem exists_pick_eq_some {lowIn highIn : Prop} [Decidable lowIn] [Decidable highIn]
    {floor rest unit : ℕ} (h : lowIn ∨ highIn) :
    ∃ d, pick lowIn highIn floor rest unit = some d := by
  unfold pick
  by_cases hlow : lowIn
  · rw [if_pos hlow]
    split
    · split
      · exact ⟨_, rfl⟩
      split
      · exact ⟨_, rfl⟩
      split
      · exact ⟨_, rfl⟩
      · exact ⟨_, rfl⟩
    · exact ⟨_, rfl⟩
  · rw [if_neg hlow, if_pos (h.resolve_left hlow)]
    exact ⟨_, rfl⟩

/-- An end of an interval is met, or passed if it does not belong to it. -/
def meets (closed : Bool) (a b : ℕ) : Prop := if closed = true then a ≤ b else a < b

instance (closed : Bool) (a b : ℕ) : Decidable (meets closed a b) := by
  unfold meets
  infer_instance

theorem meets_iff {closed : Bool} {a b : ℕ} :
    meets closed a b ↔ a < b ∨ (closed = true ∧ a = b) := by
  unfold meets
  split
  · next h => rw [Nat.le_iff_lt_or_eq]; simp [h]
  · next h => simp [h]

/-- The step of a grid, over the denominator of an interval. -/
def unitOf (i : Interval) (e : ℤ) : ℕ := (gridFactors e).1 * i.den

theorem hit?_eq (i : Interval) (e : ℤ) :
    hit? i e
      = pick
          (meets i.closed (i.low * (gridFactors e).2)
            (i.value * (gridFactors e).2 / unitOf i e * unitOf i e))
          (meets i.closed ((i.value * (gridFactors e).2 / unitOf i e + 1) * unitOf i e)
            (i.high * (gridFactors e).2))
          (i.value * (gridFactors e).2 / unitOf i e)
          (i.value * (gridFactors e).2 % unitOf i e) (unitOf i e) :=
  rfl

theorem Interval.holds_iff_meets {i : Interval} (hi : i.IsProper) {d : ℕ} {e : ℤ} :
    i.Holds d e ↔
      meets i.closed (i.low * (gridFactors e).2) (d * unitOf i e)
        ∧ meets i.closed (d * unitOf i e) (i.high * (gridFactors e).2) := by
  rw [meets_iff, meets_iff]
  exact Interval.holds_iff hi

/-- The number lies between two points of a grid next to each other. -/
theorem unitOf_between (i : Interval) (hi : i.IsProper) (e : ℤ) :
    i.value * (gridFactors e).2 / unitOf i e * unitOf i e ≤ i.value * (gridFactors e).2
      ∧ i.value * (gridFactors e).2
        < (i.value * (gridFactors e).2 / unitOf i e + 1) * unitOf i e := by
  have hunit : 0 < unitOf i e := Nat.mul_pos (gridFactors_pos e).1 hi.den_pos
  exact ⟨Nat.div_mul_le_self _ _, Nat.lt_mul_of_div_lt (Nat.lt_succ_self _) hunit⟩

/-- **What a grid is hit at lies in the interval.** -/
theorem holds_of_hit? {i : Interval} (hi : i.IsProper) {d : ℕ} {e : ℤ}
    (h : hit? i e = some d) : i.Holds d e := by
  have hlow : i.low * (gridFactors e).2 < i.value * (gridFactors e).2 :=
    Nat.mul_lt_mul_of_pos_right hi.low_lt (gridFactors_pos e).2
  have hhigh : i.value * (gridFactors e).2 < i.high * (gridFactors e).2 :=
    Nat.mul_lt_mul_of_pos_right hi.lt_high (gridFactors_pos e).2
  obtain ⟨hfloor, hnext⟩ := unitOf_between i hi e
  rw [hit?_eq] at h
  rw [Interval.holds_iff_meets hi]
  -- the mark settles the end on the side of the point, the number itself the other end
  rcases pick_eq_some h with ⟨hin, rfl⟩ | ⟨hin, rfl⟩
  · exact ⟨hin, meets_iff.2 (.inl (hfloor.trans_lt hhigh))⟩
  · exact ⟨meets_iff.2 (.inl (hlow.trans hnext)), hin⟩

/-- A grid with a step smaller than the interval is wide has a point in it. -/
theorem exists_hit? {i : Interval} (hi : i.IsProper) {e : ℤ}
    (h : (10 : ℚ) ^ e < i.high / i.den - i.low / i.den) : ∃ d, hit? i e = some d := by
  have hden : (0 : ℚ) < i.den := by exact_mod_cast hi.den_pos
  have hdown : (0 : ℚ) < (gridFactors e).2 := by exact_mod_cast (gridFactors_pos e).2
  have hwide : i.low * (gridFactors e).2 + unitOf i e < i.high * (gridFactors e).2 := by
    rw [← gridFactors_div, ← sub_div, div_lt_div_iff₀ hdown hden, sub_mul, lt_sub_iff_add_lt'] at h
    exact_mod_cast h
  rw [hit?_eq]
  refine exists_pick_eq_some ?_
  rw [meets_iff, meets_iff, Nat.add_mul, Nat.one_mul]
  omega

/-! ## §3. The search. -/

/-- One grid among those tried that has a point in the interval is enough. -/
theorem search_holds {i : Interval} (hi : i.IsProper) (k : ℤ) :
    ∀ tries n : ℕ, (∃ j : ℕ, n ≤ j ∧ j < n + tries ∧ ∃ d, hit? i (k - j) = some d) →
      i.Holds (search i k tries n).1 (search i k tries n).2 := by
  intro tries
  induction tries with
  | zero =>
    intro n h
    obtain ⟨j, hle, hlt, -⟩ := h
    omega
  | succ tries ih =>
    intro n h
    unfold search
    cases hhit : hit? i (k - n) with
    | some d =>
      have hholds : i.Holds d (k - n) := holds_of_hit? hi hhit
      simp only
      split
      · next hpower =>
        -- a one and `n` zeros are the digit 1 of a coarser grid
        have hvalue : (d : ℚ) * 10 ^ (k - n) = (1 : ℕ) * 10 ^ k := by
          rw [hpower, zpow_sub₀ (by norm_num), zpow_natCast, Nat.pow_eq]
          push_cast
          field_simp
        unfold Interval.Holds at hholds ⊢
        rw [← hvalue]
        exact hholds
      · exact hholds
    | none =>
      -- the grid that has a point is a later one
      simp only
      refine ih (n + 1) ?_
      obtain ⟨j, hle, hlt, d, hd⟩ := h
      have hne : j ≠ n := by
        intro heq
        rw [heq, hhit] at hd
        cases hd
      exact ⟨j, by omega, by omega, d, hd⟩

/-! ## §4. The magnitude. -/

/-- `10 ^ k` is at most the number, decided without fractions. -/
def reaches (i : Interval) (k : ℤ) : Bool :=
  (gridFactors k).1 * i.den ≤ i.value * (gridFactors k).2

theorem reaches_iff {i : Interval} (hden : 0 < i.den) (k : ℤ) :
    reaches i k = true ↔ (10 : ℚ) ^ k ≤ i.value / i.den := by
  have h := div_lt_gridPoint_iff (x := i.value) (d := 1) (e := k) hden
  rw [Nat.cast_one, one_mul, Nat.one_mul] at h
  unfold reaches
  rw [decide_eq_true_eq, ← not_lt, ← not_lt, h]

/-- Powers of ten and of two compared through `10 ^ 3 < 2 ^ 10` and `2 ^ 93 < 10 ^ 28`. -/
theorem ten_zpow_le_two_zpow {a b : ℤ} (hpos : 0 ≤ a → 10 * a ≤ 3 * b)
    (hneg : a < 0 → 93 * a ≤ 28 * b) : (10 : ℚ) ^ a ≤ 2 ^ b := by
  -- raised to the power 3, or 28, both sides are powers of the numbers that are compared
  rcases le_or_gt 0 a with ha | ha
  · refine (pow_le_pow_iff_left₀ (by positivity) (by positivity) (show 3 ≠ 0 by decide)).1 ?_
    calc ((10 : ℚ) ^ a) ^ 3 = 1000 ^ a := by
          rw [← zpow_natCast, ← zpow_mul, mul_comm, zpow_mul]
          norm_num
      _ ≤ 1024 ^ a := by
          rw [zpow_eq_pow_toNat ha, zpow_eq_pow_toNat ha]
          gcongr
          norm_num
      _ = 2 ^ (10 * a) := by
          rw [zpow_mul]
          norm_num
      _ ≤ 2 ^ (3 * b) := zpow_le_zpow_right₀ one_le_two (hpos ha)
      _ = (2 ^ b) ^ 3 := by rw [← zpow_natCast, ← zpow_mul, mul_comm]; rfl
  · refine (pow_le_pow_iff_left₀ (by positivity) (by positivity) (show 28 ≠ 0 by decide)).1 ?_
    calc ((10 : ℚ) ^ a) ^ 28 = (10 ^ 28) ^ a := by
          rw [← zpow_natCast, ← zpow_mul, mul_comm, zpow_mul]
          norm_cast
      _ ≤ (2 ^ 93) ^ a := by
          rw [zpow_eq_inv_pow_toNat ha, zpow_eq_inv_pow_toNat ha]
          gcongr
          norm_num
      _ = 2 ^ (93 * a) := by
          rw [zpow_mul]
          norm_cast
      _ ≤ 2 ^ (28 * b) := zpow_le_zpow_right₀ one_le_two (hneg ha)
      _ = (2 ^ b) ^ 28 := by rw [← zpow_natCast, ← zpow_mul, mul_comm]; rfl

/-- The magnitude is no more than one above the decimal logarithm, as the search needs it. -/
theorem ten_zpow_magnitude_le {i : Interval} (hvalue : 0 < i.value) (hden : 0 < i.den)
    (hlow : -1100 ≤ (Nat.log2 i.value : ℤ) - Nat.log2 i.den)
    (hhigh : (Nat.log2 i.value : ℤ) - Nat.log2 i.den ≤ 1100) :
    (10 : ℚ) ^ (magnitude i - 1) ≤ i.value / i.den := by
  obtain ⟨bits, hbits⟩ : ∃ bits : ℤ, bits = (Nat.log2 i.value : ℤ) - Nat.log2 i.den := ⟨_, rfl⟩
  have hmagnitude : magnitude i
      = (if reaches i (bits * 30103 / 100000 + 1) = true then bits * 30103 / 100000 + 2
        else if reaches i (bits * 30103 / 100000) = true then bits * 30103 / 100000 + 1
        else if reaches i (bits * 30103 / 100000 - 1) = true then bits * 30103 / 100000
        else bits * 30103 / 100000 - 1) := by
    subst hbits
    rfl
  rw [← hbits] at hlow hhigh
  rw [hmagnitude]
  -- three guesses are checked, and the last one is taken unchecked
  split
  · next h =>
    rw [show bits * 30103 / 100000 + 2 - 1 = bits * 30103 / 100000 + 1 by omega]
    exact (reaches_iff hden _).1 h
  split
  · next h =>
    rw [show bits * 30103 / 100000 + 1 - 1 = bits * 30103 / 100000 by omega]
    exact (reaches_iff hden _).1 h
  split
  · next h => exact (reaches_iff hden _).1 h
  · -- the guess is off by less than two, whatever the number is
    have hquotient := (Binary64.quotient_between hvalue hden).1
    rw [← hbits] at hquotient
    exact (ten_zpow_le_two_zpow (by omega) (by omega)).trans hquotient.le

/-! ## §5. The interval of a number of the format. -/

/-- How far the lower end is below `4 · m`. -/
def belowOf (m : ℕ) (q : ℤ) : ℕ :=
  if m = Nat.pow 2 (Binary64.precision - 1) ∧ Binary64.minExponent < q then 1 else 2

/-- The factor of the ends, and the denominator below them. -/
def numOf (q : ℤ) : ℕ := if 2 ≤ q then Nat.pow 2 (q - 2).toNat else 1

def denOf (q : ℤ) : ℕ := if 2 ≤ q then 1 else Nat.pow 2 (2 - q).toNat

theorem interval_eq (m : ℕ) (q : ℤ) :
    interval m q
      = ⟨(4 * m - belowOf m q) * numOf q, 4 * m * numOf q, (4 * m + 2) * numOf q, denOf q,
          m % 2 == 0⟩ :=
  rfl

theorem belowOf_pos (m : ℕ) (q : ℤ) : 0 < belowOf m q ∧ belowOf m q ≤ 2 := by
  unfold belowOf
  split
  · exact ⟨by decide, by decide⟩
  · exact ⟨by decide, by decide⟩

theorem numOf_pos (q : ℤ) : 0 < numOf q := by
  unfold numOf
  split
  · exact Nat.pow_pos (by decide)
  · exact one_pos

theorem denOf_pos (q : ℤ) : 0 < denOf q := by
  unfold denOf
  split
  · exact one_pos
  · exact Nat.pow_pos (by decide)

/-- The ends are counted in quarters of the unit. -/
theorem numOf_div_denOf (q : ℤ) : (numOf q : ℚ) / denOf q = 2 ^ q / 4 := by
  have hquarter : (2 : ℚ) ^ q / 4 = 2 ^ (q - 2) := by
    rw [zpow_sub₀ two_ne_zero]
    norm_num
  rw [hquarter]
  unfold numOf denOf
  split
  · next hq =>
    rw [zpow_eq_pow_toNat (by omega), Nat.pow_eq]
    push_cast
    rw [div_one]
  · next hq =>
    rw [zpow_eq_inv_pow_toNat (by omega), Nat.pow_eq, neg_sub]
    push_cast
    rw [one_div]

theorem value_div_den (m : ℕ) (q : ℤ) :
    ((interval m q).value : ℚ) / (interval m q).den = m * 2 ^ q := by
  rw [interval_eq]
  push_cast
  rw [mul_div_assoc, numOf_div_denOf]
  ring

theorem high_div_den (m : ℕ) (q : ℤ) :
    ((interval m q).high : ℚ) / (interval m q).den = highEnd m q := by
  rw [interval_eq]
  push_cast
  rw [mul_div_assoc, numOf_div_denOf, highEnd]
  ring

theorem low_div_den {m : ℕ} (hm : 0 < m) (q : ℤ) :
    ((interval m q).low : ℚ) / (interval m q).den = lowEnd m q := by
  have hbelow := belowOf_pos m q
  rw [interval_eq]
  simp only
  rw [Nat.cast_mul, Nat.cast_sub (by omega), mul_div_assoc, numOf_div_denOf]
  unfold belowOf lowEnd
  split
  · push_cast
    ring
  · push_cast
    ring

theorem isProper_interval {m : ℕ} (hm : 0 < m) (q : ℤ) : (interval m q).IsProper := by
  have hbelow := belowOf_pos m q
  exact {
    low_lt := Nat.mul_lt_mul_of_pos_right (show 4 * m - belowOf m q < 4 * m by omega) (numOf_pos q)
    lt_high := Nat.mul_lt_mul_of_pos_right (show 4 * m < 4 * m + 2 by omega) (numOf_pos q)
    den_pos := denOf_pos q }

theorem holds_interval_iff {m : ℕ} (hm : 0 < m) (q : ℤ) {d : ℕ} {e : ℤ} :
    (interval m q).Holds d e ↔ RoundsTo (d * 10 ^ e) m q := by
  have hclosed : (interval m q).closed = true ↔ m % 2 = 0 := beq_iff_eq
  unfold Interval.Holds RoundsTo
  rw [low_div_den hm, high_div_den, hclosed]

/-- The logarithms of a number of the format are those of numbers of its range. -/
theorem log2_interval_between {negative : Bool} {m : ℕ} {q : ℤ} (hm : 0 < m)
    (hcanonical : Binary64.IsCanonical (.finite negative m q)) :
    -1100 ≤ (Nat.log2 (interval m q).value : ℤ) - Nat.log2 (interval m q).den
      ∧ (Nat.log2 (interval m q).value : ℤ) - Nat.log2 (interval m q).den ≤ 1100 := by
  obtain ⟨hm', hq, hq', -⟩ := hcanonical
  have hvalue : 0 < (interval m q).value := (Nat.zero_le _).trans_lt (isProper_interval hm q).low_lt
  obtain ⟨hlow, hhigh⟩ := Binary64.quotient_between hvalue (isProper_interval hm q).den_pos
  rw [value_div_den] at hlow hhigh
  have hmone : (1 : ℚ) ≤ m := by exact_mod_cast hm
  have hmcast : (m : ℚ) ≤ 2 ^ (53 : ℤ) := by exact_mod_cast hm'.le
  have hunit : (0 : ℚ) < 2 ^ q := by positivity
  constructor
  · have hpow : (2 : ℚ) ^ q
        < 2 ^ ((Nat.log2 (interval m q).value : ℤ) - Nat.log2 (interval m q).den + 1) := by
      refine lt_of_le_of_lt ?_ hhigh
      exact le_mul_of_one_le_left hunit.le hmone
    have hlt := (zpow_lt_zpow_iff_right₀ one_lt_two).1 hpow
    have hmin : -1074 ≤ q := hq
    omega
  · have hpow : (2 : ℚ) ^ ((Nat.log2 (interval m q).value : ℤ) - Nat.log2 (interval m q).den - 1)
        < 2 ^ (53 + q) := by
      refine lt_of_lt_of_le hlow ?_
      rw [zpow_add₀ two_ne_zero]
      exact mul_le_mul_of_nonneg_right hmcast hunit.le
    have hlt := (zpow_lt_zpow_iff_right₀ one_lt_two).1 hpow
    have hmax : q ≤ 971 := hq'
    omega

/-- 17 digits of a number of at most 53 bits make a step smaller than its interval is wide. -/
theorem step_lt_width {m : ℕ} {q k : ℤ} (hm : m < Nat.pow 2 Binary64.precision)
    (hk : (10 : ℚ) ^ (k - 1) ≤ m * 2 ^ q) : (10 : ℚ) ^ (k - 17) < highEnd m q - lowEnd m q := by
  have hunit : (0 : ℚ) < 2 ^ q := by positivity
  have hmcast : (m : ℚ) < 2 ^ 53 := by exact_mod_cast hm
  have hstep : (10 : ℚ) ^ (k - 17) = 10 ^ (k - 1) / 10 ^ 16 := by
    rw [show k - 17 = k - 1 - (16 : ℕ) by push_cast; ring, zpow_sub₀ (by norm_num), zpow_natCast]
  rw [hstep, div_lt_iff₀ (by positivity)]
  refine hk.trans_lt ?_
  unfold highEnd lowEnd
  -- an interval of three quarters of the unit for a power of two, of the whole unit otherwise
  split
  · next hdense =>
    have hmeq : (m : ℚ) = 2 ^ 52 := by
      rw [hdense.1]
      norm_num [Binary64.precision]
    rw [hmeq]
    nlinarith
  · nlinarith

/-- **The digits of a number of the format are rounded to the number.** -/
theorem digits_roundsTo {negative : Bool} {m : ℕ} {q : ℤ} (hm : 0 < m)
    (hcanonical : Binary64.IsCanonical (.finite negative m q)) :
    0 < (digits m q).1 ∧ RoundsTo ((digits m q).1 * 10 ^ (digits m q).2) m q := by
  have hproper := isProper_interval hm q
  have hvalue : 0 < (interval m q).value := (Nat.zero_le _).trans_lt hproper.low_lt
  obtain ⟨hlow, hhigh⟩ := log2_interval_between hm hcanonical
  have hmagnitude := ten_zpow_magnitude_le hvalue hproper.den_pos hlow hhigh
  rw [value_div_den] at hmagnitude
  obtain ⟨d, hd⟩ : ∃ d, hit? (interval m q) (magnitude (interval m q) - (17 : ℕ)) = some d := by
    refine exists_hit? hproper ?_
    rw [low_div_den hm, high_div_den]
    exact step_lt_width hcanonical.1 hmagnitude
  have hrounds : RoundsTo ((digits m q).1 * 10 ^ (digits m q).2) m q :=
    (holds_interval_iff hm q).1
      (search_holds hproper _ 17 1 ⟨17, by omega, by omega, d, hd⟩)
  refine ⟨Nat.pos_of_ne_zero ?_, hrounds⟩
  intro hzero
  -- zero is below every interval
  have hle := hrounds.low_le
  have hpos : (0 : ℚ) < lowEnd m q := by
    have hmone : (1 : ℚ) ≤ m := by exact_mod_cast hm
    unfold lowEnd
    split
    · have hfactor : (0 : ℚ) < m - 1 / 4 := by linarith
      positivity
    · have hfactor : (0 : ℚ) < m - 1 / 2 := by linarith
      positivity
  rw [hzero, Nat.cast_zero, zero_mul] at hle
  exact absurd hpos hle.not_gt

end EditorWire.Shortest
