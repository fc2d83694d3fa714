/-
  EditorWire.Proofs.Number.Rounding — what a quotient is rounded to.

  A number `m · 2 ^ q` of the format is what every rational in an interval around
  it is rounded to, and the ends of the interval belong to it if `m` is even:

      ( (m − 1/2) · 2 ^ q ,  (m + 1/2) · 2 ^ q )

  Below a power of two the numbers lie twice as dense, so there the lower end is
  `(m − 1/4) · 2 ^ q`.

  Main results:
    * `ofRatio_eq`, `ofDecimal_eq` — a quotient, or a decimal numeral, in the
      interval of a number is rounded to that number.
    * `isCanonical_ofDecimal` — whatever a numeral is, it is rounded to a number of
      the format.
-/
import EditorWire.Number.Binary64
import Mathlib.Algebra.Order.Field.Power
import Mathlib.Data.Int.Log
import Mathlib.Data.Rat.Floor
import Mathlib.Tactic.FieldSimp
import Mathlib.Tactic.Linarith
import Mathlib.Tactic.NormNum
import Mathlib.Tactic.Positivity
import Mathlib.Tactic.Ring

namespace EditorWire.Binary64

/-! ## §1. Rounding to a natural number. -/

/-- `r` lies between two ends, which belong to the interval if it is closed. -/
def Inside (closed : Prop) (low r high : ℚ) : Prop :=
  (low < r ∨ (closed ∧ low = r)) ∧ (r < high ∨ (closed ∧ r = high))

theorem Inside.low_le {closed : Prop} {low r high : ℚ} (h : Inside closed low r high) :
    low ≤ r := by
  rcases h.1 with h | ⟨-, h⟩
  · exact h.le
  · exact h.le

theorem Inside.le_high {closed : Prop} {low r high : ℚ} (h : Inside closed low r high) :
    r ≤ high := by
  rcases h.2 with h | ⟨-, h⟩
  · exact h.le
  · exact h.le

/-- An interval that is scaled keeps what it holds. -/
theorem Inside.scale {closed : Prop} {low r high s : ℚ} (hs : 0 < s) :
    Inside closed (low * s) r (high * s) ↔ Inside closed low (r / s) high := by
  unfold Inside
  rw [lt_div_iff₀ hs, div_lt_iff₀ hs, eq_div_iff hs.ne', div_eq_iff hs.ne']

/-- A quotient is rounded to the number it is within a half of, a tie to the even one. -/
theorem roundHalfEven_eq {num den n : ℕ} (hd : 0 < den)
    (h : Inside (n % 2 = 0) ((n : ℚ) - 1 / 2) (num / den) (n + 1 / 2)) :
    roundHalfEven num den = n := by
  have hd' : (0 : ℚ) < den := by exact_mod_cast hd
  -- the two ends over the integers, `den` and `2` cleared
  have hlow : 2 * (n * den) < 2 * num + den ∨ (n % 2 = 0 ∧ 2 * (n * den) = 2 * num + den) := by
    rcases h.1 with h | ⟨heven, h⟩
    · left
      rw [lt_div_iff₀ hd'] at h
      have hq : (2 * (n * den) : ℚ) < 2 * num + den := by linarith
      exact_mod_cast hq
    · right
      rw [eq_div_iff hd'.ne'] at h
      have hq : (2 * (n * den) : ℚ) = 2 * num + den := by linarith
      exact ⟨heven, by exact_mod_cast hq⟩
  have hhigh : 2 * num < 2 * (n * den) + den ∨ (n % 2 = 0 ∧ 2 * num = 2 * (n * den) + den) := by
    rcases h.2 with h | ⟨heven, h⟩
    · left
      rw [div_lt_iff₀ hd'] at h
      have hq : (2 * num : ℚ) < 2 * (n * den) + den := by linarith
      exact_mod_cast hq
    · right
      rw [div_eq_iff hd'.ne'] at h
      have hq : (2 * num : ℚ) = 2 * (n * den) + den := by linarith
      exact ⟨heven, by exact_mod_cast hq⟩
  have hdiv : num / den * den + num % den = num := by
    rw [Nat.mul_comm]; exact Nat.div_add_mod num den
  have hrest : num % den < den := Nat.mod_lt num hd
  -- so `n` is the floor or the number after it
  have hle : num / den ≤ n := by
    by_contra hlt
    have hmul : (n + 1) * den ≤ num / den * den := Nat.mul_le_mul_right den (by omega)
    rw [Nat.add_mul, Nat.one_mul] at hmul
    omega
  have hge : n ≤ num / den + 1 := by
    by_contra hlt
    have hmul : (num / den + 2) * den ≤ n * den := Nat.mul_le_mul_right den (by omega)
    rw [Nat.add_mul] at hmul
    omega
  unfold roundHalfEven
  simp only
  -- in each case the ends leave only the branches that round to `n`
  rcases Nat.lt_or_ge (num / den) n with hn | hn
  · obtain rfl : n = num / den + 1 := by omega
    rw [Nat.add_mul, Nat.one_mul] at hlow hhigh
    split
    · omega
    split
    · rfl
    split
    · omega
    · rfl
  · obtain rfl : n = num / den := by omega
    split
    · rfl
    split
    · omega
    split
    · rfl
    · omega

/-- A quotient of at least `n` is not rounded below it. -/
theorem le_roundHalfEven {num den n : ℕ} (hd : 0 < den) (h : (n : ℚ) ≤ num / den) :
    n ≤ roundHalfEven num den := by
  have hd' : (0 : ℚ) < den := by exact_mod_cast hd
  rw [le_div_iff₀ hd'] at h
  have hmul : n * den ≤ num := by exact_mod_cast h
  have hfloor : n ≤ num / den := (Nat.le_div_iff_mul_le hd).2 hmul
  unfold roundHalfEven
  simp only
  split
  · exact hfloor
  split
  · omega
  split
  · exact hfloor
  · omega

/-- A quotient of at most `n` is not rounded above it. -/
theorem roundHalfEven_le {num den n : ℕ} (hd : 0 < den) (h : (num : ℚ) / den ≤ n) :
    roundHalfEven num den ≤ n := by
  have hd' : (0 : ℚ) < den := by exact_mod_cast hd
  rw [div_le_iff₀ hd'] at h
  have hmul : num ≤ n * den := by exact_mod_cast h
  have hdiv : num / den * den + num % den = num := by
    rw [Nat.mul_comm]; exact Nat.div_add_mod num den
  unfold roundHalfEven
  simp only
  rcases Nat.lt_or_ge (num / den) n with hn | hn
  · split
    · omega
    split
    · omega
    split <;> omega
  · -- the quotient is `n` itself, and nothing is left over
    have hmul' : n * den ≤ num / den * den := Nat.mul_le_mul_right den hn
    have hfloor : num / den ≤ n := Nat.div_le_of_le_mul (by rw [Nat.mul_comm]; exact hmul)
    rw [if_pos (by omega)]
    exact hfloor

/-- The quotient in units of `2 ^ q`, rounded. -/
def roundAt (num den : ℕ) (q : ℤ) : ℕ :=
  if 0 ≤ q then roundHalfEven num (den * Nat.pow 2 q.toNat)
  else roundHalfEven (num * Nat.pow 2 (-q).toNat) den

theorem zpow_eq_pow_toNat {b : ℚ} {q : ℤ} (hq : 0 ≤ q) : b ^ q = b ^ q.toNat := by
  rw [← zpow_natCast, Int.toNat_of_nonneg hq]

theorem zpow_eq_inv_pow_toNat {b : ℚ} {q : ℤ} (hq : q < 0) : b ^ q = (b ^ (-q).toNat)⁻¹ := by
  rw [← zpow_eq_pow_toNat (show 0 ≤ -q by omega), zpow_neg, inv_inv]

/-- It is the rounding of some quotient of the value in those units. -/
theorem exists_roundAt_eq (num : ℕ) {den : ℕ} (hd : 0 < den) (q : ℤ) :
    ∃ n d : ℕ, 0 < d ∧ roundAt num den q = roundHalfEven n d
      ∧ (n : ℚ) / d = num / den / 2 ^ q := by
  unfold roundAt
  split
  · next hq =>
    refine ⟨_, _, Nat.mul_pos hd (Nat.pow_pos (by decide)), rfl, ?_⟩
    rw [zpow_eq_pow_toNat hq, div_div]
    push_cast
    rfl
  · next hq =>
    refine ⟨_, _, hd, rfl, ?_⟩
    rw [zpow_eq_inv_pow_toNat (by omega), div_inv_eq_mul, Nat.pow_eq]
    push_cast
    ring

theorem roundAt_eq {num den n : ℕ} {q : ℤ} (hd : 0 < den)
    (h : Inside (n % 2 = 0) (((n : ℚ) - 1 / 2) * 2 ^ q) (num / den) ((n + 1 / 2) * 2 ^ q)) :
    roundAt num den q = n := by
  obtain ⟨n', d', hd', heq, hvalue⟩ := exists_roundAt_eq num hd q
  rw [Inside.scale (by positivity), ← hvalue] at h
  rw [heq, roundHalfEven_eq hd' h]

theorem le_roundAt {num den n : ℕ} {q : ℤ} (hd : 0 < den) (h : (n : ℚ) * 2 ^ q ≤ num / den) :
    n ≤ roundAt num den q := by
  obtain ⟨n', d', hd', heq, hvalue⟩ := exists_roundAt_eq num hd q
  rw [heq]
  refine le_roundHalfEven hd' ?_
  rw [hvalue, le_div_iff₀ (by positivity)]
  exact h

theorem roundAt_le {num den n : ℕ} {q : ℤ} (hd : 0 < den) (h : (num : ℚ) / den ≤ n * 2 ^ q) :
    roundAt num den q ≤ n := by
  obtain ⟨n', d', hd', heq, hvalue⟩ := exists_roundAt_eq num hd q
  rw [heq]
  refine roundHalfEven_le hd' ?_
  rw [hvalue, div_le_iff₀ (by positivity)]
  exact h

/-! ## §2. The scale of a quotient. -/

/-- Two powers of two next to each other hold a number between them only once. -/
theorem zpow_between_unique {r : ℚ} {a b : ℤ} (ha : 2 ^ a ≤ r) (ha' : r < 2 ^ (a + 1))
    (hb : 2 ^ b ≤ r) (hb' : r < 2 ^ (b + 1)) : a = b := by
  have hab : a < b + 1 := (zpow_lt_zpow_iff_right₀ one_lt_two).1 (ha.trans_lt hb')
  have hba : b < a + 1 := (zpow_lt_zpow_iff_right₀ one_lt_two).1 (hb.trans_lt ha')
  omega

/-- A positive number lies between two powers of two. -/
theorem exists_zpow_between {r : ℚ} (hr : 0 < r) : ∃ k : ℤ, 2 ^ k ≤ r ∧ r < 2 ^ (k + 1) :=
  ⟨Int.log 2 r, by exact_mod_cast Int.zpow_log_le_self one_lt_two hr,
    by exact_mod_cast Int.lt_zpow_succ_log_self one_lt_two r⟩

/-- A natural number between powers of two. -/
theorem log2_between {n : ℕ} (hn : 0 < n) :
    (2 : ℚ) ^ (Nat.log2 n : ℤ) ≤ n ∧ (n : ℚ) < 2 ^ ((Nat.log2 n : ℤ) + 1) := by
  constructor
  · rw [zpow_natCast]
    exact_mod_cast Nat.log2_self_le hn.ne'
  · have h : n < 2 ^ (Nat.log2 n + 1) := Nat.lt_log2_self
    have hcast : (n : ℚ) < 2 ^ (Nat.log2 n + 1) := by exact_mod_cast h
    exact_mod_cast hcast

/-- The difference of the logarithms is that of the quotient, or one more. -/
theorem quotient_between {num den : ℕ} (hn : 0 < num) (hd : 0 < den) :
    (2 : ℚ) ^ ((Nat.log2 num : ℤ) - Nat.log2 den - 1) < num / den
      ∧ (num : ℚ) / den < 2 ^ ((Nat.log2 num : ℤ) - Nat.log2 den + 1) := by
  obtain ⟨hnum, hnum'⟩ := log2_between hn
  obtain ⟨hden, hden'⟩ := log2_between hd
  have hd' : (0 : ℚ) < den := by exact_mod_cast hd
  have hn' : (0 : ℚ) < num := by exact_mod_cast hn
  constructor
  · rw [lt_div_iff₀ hd']
    calc (2 : ℚ) ^ ((Nat.log2 num : ℤ) - Nat.log2 den - 1) * den
        < 2 ^ ((Nat.log2 num : ℤ) - Nat.log2 den - 1) * 2 ^ ((Nat.log2 den : ℤ) + 1) := by
          gcongr
      _ = 2 ^ (Nat.log2 num : ℤ) := by rw [← zpow_add₀ two_ne_zero]; congr 1; ring
      _ ≤ num := hnum
  · rw [div_lt_iff₀ hd']
    calc (num : ℚ) < 2 ^ ((Nat.log2 num : ℤ) + 1) := hnum'
      _ = 2 ^ ((Nat.log2 num : ℤ) - Nat.log2 den + 1) * 2 ^ (Nat.log2 den : ℤ) := by
          rw [← zpow_add₀ two_ne_zero]; congr 1; ring
      _ ≤ 2 ^ ((Nat.log2 num : ℤ) - Nat.log2 den + 1) * den := by gcongr

/-- The quotient is at least `2 ^ e`, decided without fractions. -/
def reaches (num den : ℕ) (e : ℤ) : Bool :=
  if 0 ≤ e then den * Nat.pow 2 e.toNat ≤ num else den ≤ num * Nat.pow 2 (-e).toNat

theorem reaches_iff {num den : ℕ} (hd : 0 < den) (e : ℤ) :
    reaches num den e = true ↔ (2 : ℚ) ^ e ≤ num / den := by
  have hd' : (0 : ℚ) < den := by exact_mod_cast hd
  rw [le_div_iff₀ hd']
  unfold reaches
  split
  · next he =>
    rw [decide_eq_true_eq, zpow_eq_pow_toNat he, Nat.pow_eq, ← Nat.cast_le (α := ℚ)]
    push_cast
    rw [mul_comm]
  · next he =>
    rw [decide_eq_true_eq, Nat.pow_eq, ← Nat.cast_le (α := ℚ)]
    push_cast
    rw [zpow_eq_inv_pow_toNat (by omega), inv_mul_le_iff₀ (by positivity), mul_comm]

/-- The scale gives a quotient 53 bits, unless that of the subnormal numbers is higher. -/
theorem scaleOf_eq {num den : ℕ} {k : ℤ} (hn : 0 < num) (hd : 0 < den)
    (hk : (2 : ℚ) ^ k ≤ num / den) (hk' : (num : ℚ) / den < 2 ^ (k + 1)) :
    scaleOf num den = max minExponent (k - 52) := by
  obtain ⟨hlow, hhigh⟩ := quotient_between hn hd
  obtain ⟨e, he⟩ : ∃ e : ℤ, e = (Nat.log2 num : ℤ) - Nat.log2 den := ⟨_, rfl⟩
  have hscale : scaleOf num den
      = max minExponent ((if reaches num den e = true then e else e - 1) - 52) := by
    subst he
    rfl
  rw [← he] at hlow hhigh
  rw [hscale]
  -- the guess is the binade or the one above it, and the comparison tells which
  congr 2
  split
  · next h =>
    exact zpow_between_unique ((reaches_iff hd e).1 h) hhigh hk hk'
  · next h =>
    have hlt : (num : ℚ) / den < 2 ^ (e - 1 + 1) := by
      rw [sub_add_cancel]
      exact not_le.1 fun hle => h ((reaches_iff hd e).2 hle)
    exact zpow_between_unique hlow.le hlt hk hk'

/-! ## §3. The interval of a number. -/

/-- The lower end of the rationals that are rounded to `m · 2 ^ q`. -/
def lowEnd (m : ℕ) (q : ℤ) : ℚ :=
  (m - (if m = Nat.pow 2 (precision - 1) ∧ minExponent < q then 1 / 4 else 1 / 2)) * 2 ^ q

/-- The upper end of them. -/
def highEnd (m : ℕ) (q : ℤ) : ℚ := (m + 1 / 2) * 2 ^ q

/-- `r` is rounded to `m · 2 ^ q`. -/
def RoundsTo (r : ℚ) (m : ℕ) (q : ℤ) : Prop := Inside (m % 2 = 0) (lowEnd m q) r (highEnd m q)

/-- The rounding of a quotient, its scale given. -/
theorem ofRatio_of_scaleOf (negative : Bool) {num den : ℕ} {q : ℤ} (h : scaleOf num den = q) :
    ofRatio negative num den
      = if roundAt num den q = Nat.pow 2 precision then
          (if maxExponent < q + 1 then .infinity negative
            else .finite negative (Nat.pow 2 (precision - 1)) (q + 1))
        else if maxExponent < q then .infinity negative
        else .finite negative (roundAt num den q) q := by
  -- the carry moves the pair of significand and scale as one
  have hpair : ofRatio negative num den
      = (let pair : ℕ × ℤ :=
          if roundAt num den q = Nat.pow 2 precision then (Nat.pow 2 (precision - 1), q + 1)
          else (roundAt num den q, q)
        if maxExponent < pair.2 then .infinity negative
        else .finite negative pair.1 pair.2) := by
    subst h
    rfl
  rw [hpair]
  split <;> rfl

/-- A quotient in the binade of `2 ^ q`, or below it at the lowest scale. -/
theorem ofRatio_of_lt {negative : Bool} {num den : ℕ} {m : ℕ} {q : ℤ} (hn : 0 < num)
    (hd : 0 < den) (hm : m < Nat.pow 2 precision) (hq : minExponent ≤ q) (hq' : q ≤ maxExponent)
    (hlow : (2 : ℚ) ^ (q + 52) ≤ num / den ∨ q = minExponent)
    (hhigh : (num : ℚ) / den < 2 ^ (q + 53)) (hround : roundAt num den q = m) :
    ofRatio negative num den = .finite negative m q := by
  obtain ⟨k, hk, hk'⟩ := exists_zpow_between (r := (num : ℚ) / den) (by positivity)
  have hkq : k < q + 53 := (zpow_lt_zpow_iff_right₀ one_lt_two).1 (hk.trans_lt hhigh)
  have hscale : scaleOf num den = q := by
    rw [scaleOf_eq hn hd hk hk']
    rcases hlow with hlow | rfl
    · have hqk : q + 52 < k + 1 := (zpow_lt_zpow_iff_right₀ one_lt_two).1 (hlow.trans_lt hk')
      omega
    · omega
  rw [ofRatio_of_scaleOf negative hscale, hround, if_neg hm.ne, if_neg (by omega)]

/-- A unit of a higher scale in those of a lower one. -/
theorem zpow_add_natCast (q : ℤ) (n : ℕ) : (2 : ℚ) ^ (q + n) = 2 ^ n * 2 ^ q := by
  rw [zpow_add₀ two_ne_zero, zpow_natCast, mul_comm]

/-- The interval of a number lies in that of its neighbours at one scale. -/
theorem RoundsTo.inside {r : ℚ} {m : ℕ} {q : ℤ} (h : RoundsTo r m q) :
    Inside (m % 2 = 0) (((m : ℚ) - 1 / 2) * 2 ^ q) r ((m + 1 / 2) * 2 ^ q) := by
  refine ⟨?_, h.2⟩
  have hunit : (0 : ℚ) < 2 ^ q := by positivity
  by_cases hdense : m = Nat.pow 2 (precision - 1) ∧ minExponent < q
  · -- a quarter is less than a half, so the end itself is inside
    left
    have hlow := h.low_le
    rw [lowEnd, if_pos hdense] at hlow
    nlinarith
  · have hlow := h.1
    rw [lowEnd, if_neg hdense] at hlow
    exact hlow

/-- Just below a power of two the scale is one lower, and rounding carries. -/
theorem ofRatio_of_carry {negative : Bool} {num den : ℕ} {q : ℤ} (hn : 0 < num) (hd : 0 < den)
    (hq : minExponent < q) (hq' : q ≤ maxExponent)
    (hlow : ((2 : ℚ) ^ 52 - 1 / 4) * 2 ^ q ≤ num / den)
    (hlt : (num : ℚ) / den < 2 ^ (q + 52)) :
    ofRatio negative num den = .finite negative (Nat.pow 2 (precision - 1)) q := by
  have hunit : (0 : ℚ) < 2 ^ q := by positivity
  rw [show q + 52 = q + (52 : ℕ) by rfl, zpow_add_natCast] at hlt
  have hhalf : (2 : ℚ) ^ q = 2 ^ 1 * 2 ^ (q - 1) := by
    rw [← zpow_add_natCast]; congr 1; push_cast; ring
  have hscale : scaleOf num den = q - 1 := by
    have hk : (2 : ℚ) ^ (q + 51) ≤ num / den := by
      rw [show q + 51 = q + (51 : ℕ) by rfl, zpow_add_natCast]
      refine le_trans ?_ hlow
      nlinarith
    have hk' : (num : ℚ) / den < 2 ^ (q + 51 + 1) := by
      rw [show q + 51 + 1 = q + (52 : ℕ) by push_cast; ring, zpow_add_natCast]
      exact hlt
    rw [scaleOf_eq hn hd hk hk']
    omega
  -- a quarter of the unit is a half of the lower one, and the power of two is even there
  have hround : roundAt num den (q - 1) = Nat.pow 2 precision := by
    refine roundAt_eq hd ⟨?_, .inl ?_⟩
    · rcases hlow.lt_or_eq with hlow | hlow
      · left
        refine lt_of_eq_of_lt ?_ hlow
        rw [hhalf]
        norm_num [precision]
        ring
      · right
        refine ⟨by decide, ?_⟩
        rw [← hlow, hhalf]
        norm_num [precision]
        ring
    · refine hlt.trans ?_
      rw [hhalf]
      have hunit' : (0 : ℚ) < 2 ^ (q - 1) := by positivity
      norm_num [precision]
      linarith
  rw [ofRatio_of_scaleOf negative hscale, if_pos hround, sub_add_cancel, if_neg (by omega)]

/-- A significand of 53 bits that is no power of two has its whole interval in its binade. -/
theorem RoundsTo.binade_le {r : ℚ} {m : ℕ} {q : ℤ} (h : RoundsTo r m q)
    (hm : Nat.pow 2 (precision - 1) < m) : (2 : ℚ) ^ (q + 52) ≤ r := by
  have hunit : (0 : ℚ) < 2 ^ q := by positivity
  have hgt : (2 : ℚ) ^ 52 + 1 ≤ m := by
    have hsucc : 2 ^ 52 + 1 ≤ m := hm
    exact_mod_cast hsucc
  rw [show q + 52 = q + (52 : ℕ) by rfl, zpow_add_natCast]
  refine le_trans ?_ h.inside.low_le
  nlinarith

/-- **A quotient in the interval of a number is rounded to the number.** -/
theorem ofRatio_eq {negative : Bool} {num den m : ℕ} {q : ℤ} (hn : 0 < num) (hd : 0 < den)
    (hcanonical : IsCanonical (.finite negative m q)) (h : RoundsTo (num / den) m q) :
    ofRatio negative num den = .finite negative m q := by
  obtain ⟨hm, hq, hq', hnormal⟩ := hcanonical
  have hunit : (0 : ℚ) < 2 ^ q := by positivity
  have hhigh : (num : ℚ) / den < 2 ^ (q + 53) := by
    have hmcast : (m : ℚ) + 1 ≤ 2 ^ 53 := by
      have hsucc : m + 1 ≤ 2 ^ 53 := hm
      exact_mod_cast hsucc
    rw [show q + 53 = q + (53 : ℕ) by rfl, zpow_add_natCast]
    refine h.le_high.trans_lt ?_
    unfold highEnd
    nlinarith
  by_cases hbelow : (m = Nat.pow 2 (precision - 1) ∧ minExponent < q)
      ∧ (num : ℚ) / den < 2 ^ (q + 52)
  · obtain ⟨⟨rfl, hqlow⟩, hlt⟩ := hbelow
    refine ofRatio_of_carry hn hd hqlow hq' ?_ hlt
    have hle := h.low_le
    rw [lowEnd, if_pos ⟨rfl, hqlow⟩] at hle
    exact_mod_cast hle
  · refine ofRatio_of_lt hn hd hm hq hq' ?_ hhigh (roundAt_eq hd h.inside)
    -- the quotient is in the binade of the number, or the scale is the lowest
    by_cases hqmin : q = minExponent
    · exact .inr hqmin
    left
    have hqlow : minExponent < q := lt_of_le_of_ne hq (Ne.symm hqmin)
    rcases hnormal with hnormal | hnormal
    · rcases hnormal.eq_or_lt with hpower | hgt
      · exact not_lt.1 fun hlt => hbelow ⟨⟨hpower.symm, hqlow⟩, hlt⟩
      · exact h.binade_le hgt
    · exact absurd hnormal hqmin

/-! ## §4. Decimal numerals. -/

theorem eight_zpow (e : ℤ) : (8 : ℚ) ^ e = 2 ^ (3 * e) := by
  rw [zpow_mul]
  norm_num

/-- A numeral settled as too large by its size is larger than every number of the format. -/
theorem zpow_lt_of_large {digits : ℕ} {e : ℤ} (hd : 0 < digits)
    (h : 1100 < (Nat.log2 digits : ℤ) + 3 * e ∧ 0 ≤ e) :
    (2 : ℚ) ^ (1100 : ℤ) < digits * 10 ^ e := by
  obtain ⟨hlog, -⟩ := log2_between hd
  calc (2 : ℚ) ^ (1100 : ℤ) < 2 ^ ((Nat.log2 digits : ℤ) + 3 * e) :=
        zpow_lt_zpow_right₀ one_lt_two h.1
    _ = 2 ^ (Nat.log2 digits : ℤ) * 8 ^ e := by rw [zpow_add₀ two_ne_zero, eight_zpow]
    _ ≤ digits * 10 ^ e := by
        have hpow : (8 : ℚ) ^ e ≤ 10 ^ e := by
          rw [zpow_eq_pow_toNat h.2, zpow_eq_pow_toNat h.2]
          gcongr
          norm_num
        gcongr

/-- A numeral settled as too small by its size is smaller than every number above zero. -/
theorem lt_zpow_of_small {digits : ℕ} {e : ℤ} (hd : 0 < digits)
    (h : (Nat.log2 digits : ℤ) + 1 + 3 * e < -1100 ∧ e < 0) :
    digits * 10 ^ e < (2 : ℚ) ^ (-1100 : ℤ) := by
  obtain ⟨-, hlog⟩ := log2_between hd
  have hpow : (10 : ℚ) ^ e ≤ 8 ^ e := by
    rw [zpow_eq_inv_pow_toNat h.2, zpow_eq_inv_pow_toNat h.2]
    gcongr
    norm_num
  calc digits * (10 : ℚ) ^ e ≤ 2 ^ ((Nat.log2 digits : ℤ) + 1) * 8 ^ e := by gcongr
    _ = 2 ^ ((Nat.log2 digits : ℤ) + 1 + 3 * e) := by
        rw [eight_zpow, ← zpow_add₀ two_ne_zero]
    _ < 2 ^ (-1100 : ℤ) := zpow_lt_zpow_right₀ one_lt_two h.1

/-- A numeral as a quotient of natural numbers. -/
theorem exists_ofDecimal_eq (negative : Bool) {digits : ℕ} (hd : 0 < digits) (e : ℤ) :
    ∃ num den : ℕ, 0 < num ∧ 0 < den ∧ (num : ℚ) / den = digits * 10 ^ e
      ∧ (ofDecimal negative digits e = ofRatio negative num den
        ∨ (ofDecimal negative digits e = .infinity negative
            ∧ (2 : ℚ) ^ (1100 : ℤ) < digits * 10 ^ e)
        ∨ (ofDecimal negative digits e = zero negative
            ∧ digits * 10 ^ e < (2 : ℚ) ^ (-1100 : ℤ))) := by
  -- the power of ten stands above the line or below it
  by_cases he : 0 ≤ e
  · refine ⟨digits * 10 ^ e.toNat, 1, by positivity, one_pos, ?_, ?_⟩
    · rw [zpow_eq_pow_toNat he]
      push_cast
      rw [div_one]
    · unfold ofDecimal
      rw [if_neg hd.ne']
      split
      · next h => exact .inr (.inl ⟨rfl, zpow_lt_of_large hd h⟩)
      split
      · next h => omega
      · exact .inl rfl
  · refine ⟨digits, 10 ^ (-e).toNat, hd, by positivity, ?_, ?_⟩
    · rw [zpow_eq_inv_pow_toNat (by omega)]
      push_cast
      rw [div_eq_mul_inv]
    · unfold ofDecimal
      rw [if_neg hd.ne']
      split
      · next h => omega
      split
      · next h => exact .inr (.inr ⟨rfl, lt_zpow_of_small hd h⟩)
      · exact .inl rfl

/-- **A numeral in the interval of a number is rounded to the number.** -/
theorem ofDecimal_eq {negative : Bool} {digits m : ℕ} {e q : ℤ} (hd : 0 < digits) (hm : 0 < m)
    (hcanonical : IsCanonical (.finite negative m q)) (h : RoundsTo (digits * 10 ^ e) m q) :
    ofDecimal negative digits e = .finite negative m q := by
  obtain ⟨num, den, hnum, hden, hvalue, hcases⟩ := exists_ofDecimal_eq negative hd e
  rcases hcases with hratio | ⟨-, hlarge⟩ | ⟨-, hsmall⟩
  · rw [hratio]
    exact ofRatio_eq hnum hden hcanonical (hvalue ▸ h)
  · -- the largest number of the format is smaller than the numeral
    exfalso
    obtain ⟨hm', -, hq', -⟩ := hcanonical
    have hmcast : (m : ℚ) + 1 ≤ 2 ^ 53 := by
      have hsucc : m + 1 ≤ 2 ^ 53 := hm'
      exact_mod_cast hsucc
    have hunit : (2 : ℚ) ^ q ≤ 2 ^ (971 : ℤ) := zpow_le_zpow_right₀ one_le_two hq'
    have hhigh : (digits : ℚ) * 10 ^ e ≤ 2 ^ (1100 : ℤ) := by
      calc (digits : ℚ) * 10 ^ e ≤ (m + 1 / 2) * 2 ^ q := h.le_high
        _ ≤ 2 ^ (53 : ℤ) * 2 ^ (971 : ℤ) := by
            gcongr
            have hcast : (2 : ℚ) ^ (53 : ℤ) = 2 ^ 53 := by norm_cast
            rw [hcast]
            linarith
        _ = 2 ^ (1024 : ℤ) := by rw [← zpow_add₀ two_ne_zero]; rfl
        _ ≤ 2 ^ (1100 : ℤ) := zpow_le_zpow_right₀ one_le_two (by norm_num)
    exact absurd hlarge hhigh.not_gt
  · -- half of the smallest number above zero is larger than the numeral
    exfalso
    obtain ⟨-, hq, -, -⟩ := hcanonical
    have hmcast : (1 : ℚ) ≤ m := by exact_mod_cast hm
    have hlow : (2 : ℚ) ^ (-1100 : ℤ) ≤ digits * 10 ^ e := by
      calc (2 : ℚ) ^ (-1100 : ℤ) ≤ 2 ^ (-1075 : ℤ) := zpow_le_zpow_right₀ one_le_two (by norm_num)
        _ = 2 ^ (-1 : ℤ) * 2 ^ minExponent := by rw [← zpow_add₀ two_ne_zero]; rfl
        _ ≤ (m - 1 / 2) * 2 ^ q := by
            have hhalf : (2 : ℚ) ^ (-1 : ℤ) ≤ m - 1 / 2 := by
              rw [zpow_neg_one]
              linarith
            have hunit : (2 : ℚ) ^ minExponent ≤ 2 ^ q := zpow_le_zpow_right₀ one_le_two hq
            exact mul_le_mul hhalf hunit (by positivity) (by linarith)
        _ ≤ digits * 10 ^ e := h.inside.low_le
    exact absurd hsmall hlow.not_gt

/-- A quotient is rounded to a number of the format. -/
theorem isCanonical_ofRatio (negative : Bool) {num den : ℕ} (hn : 0 < num) (hd : 0 < den) :
    IsCanonical (ofRatio negative num den) := by
  obtain ⟨k, hk, hk'⟩ := exists_zpow_between (r := (num : ℚ) / den) (by positivity)
  obtain ⟨q, hscale⟩ : ∃ q, scaleOf num den = q := ⟨_, rfl⟩
  have hmax : max minExponent (k - 52) = q := by rw [← hscale, scaleOf_eq hn hd hk hk']
  -- the quotient is below the next binade, and in this one unless the scale is the lowest
  have hle : roundAt num den q ≤ Nat.pow 2 precision := by
    refine roundAt_le hd (le_trans hk'.le ?_)
    calc (2 : ℚ) ^ (k + 1) ≤ 2 ^ (q + (53 : ℕ)) :=
          zpow_le_zpow_right₀ one_le_two (by push_cast; omega)
      _ = ((Nat.pow 2 precision : ℕ) : ℚ) * 2 ^ q := by
          rw [zpow_add_natCast]; norm_num [precision]
  have hge : Nat.pow 2 (precision - 1) ≤ roundAt num den q ∨ q = minExponent := by
    by_cases hq : q = minExponent
    · exact .inr hq
    · refine .inl (le_roundAt hd (le_trans ?_ hk))
      calc ((Nat.pow 2 (precision - 1) : ℕ) : ℚ) * 2 ^ q = 2 ^ (q + (52 : ℕ)) := by
            rw [zpow_add_natCast]; norm_num [precision]
        _ ≤ 2 ^ k := zpow_le_zpow_right₀ one_le_two (by push_cast; omega)
  have hqlow : minExponent ≤ q := by omega
  rw [ofRatio_of_scaleOf negative hscale]
  split
  · -- carried to the first significand of the next scale
    split
    · trivial
    · exact ⟨by decide, by omega, by omega, .inl le_rfl⟩
  · next hcarry =>
    split
    · trivial
    · exact ⟨lt_of_le_of_ne hle hcarry, hqlow, by omega, hge⟩

/-- **Whatever a numeral is, it is rounded to a number of the format.** -/
theorem isCanonical_ofDecimal (negative : Bool) (digits : ℕ) (e : ℤ) :
    IsCanonical (ofDecimal negative digits e) := by
  have hzero : IsCanonical (zero negative) :=
    ⟨by decide, le_refl minExponent, by decide, .inr rfl⟩
  rcases Nat.eq_zero_or_pos digits with rfl | hd
  · exact hzero
  obtain ⟨num, den, hnum, hden, -, hcases⟩ := exists_ofDecimal_eq negative hd e
  rcases hcases with heq | ⟨heq, -⟩ | ⟨heq, -⟩
  · rw [heq]
    exact isCanonical_ofRatio negative hnum hden
  · rw [heq]
    trivial
  · rw [heq]
    exact hzero

end EditorWire.Binary64
