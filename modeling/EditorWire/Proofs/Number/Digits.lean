/-
  EditorWire.Proofs.Number.Digits — decimal digit texts.

  What `Decimal.ofNat` writes are digits, the first of them no zero unless the
  number is zero; `Decimal.value` of digits side by side is positional.
-/
import EditorWire.Number.FloatText
import Mathlib.Data.List.Induction
import Mathlib.Tactic.Ring

namespace EditorWire.Decimal

/-! ## §1. Digits and nothing else. -/

theorem isDigit_between {c : ℕ} (h : CodePoint.isDigit c = true) : 0x30 ≤ c ∧ c ≤ 0x39 := by
  unfold CodePoint.isDigit at h
  rw [Bool.and_eq_true, decide_eq_true_eq, decide_eq_true_eq] at h
  exact h

/-- Decimal digits and nothing else. -/
def AllDigits (t : Text) : Prop := ∀ c ∈ t, CodePoint.isDigit c = true

theorem AllDigits.append {s t : Text} (hs : AllDigits s) (ht : AllDigits t) :
    AllDigits (s ++ t) := by
  intro c hc
  rcases List.mem_append.1 hc with hc | hc
  · exact hs c hc
  · exact ht c hc

theorem AllDigits.take {t : Text} (h : AllDigits t) (n : ℕ) : AllDigits (t.take n) :=
  fun c hc => h c (List.mem_of_mem_take hc)

theorem AllDigits.drop {t : Text} (h : AllDigits t) (n : ℕ) : AllDigits (t.drop n) :=
  fun c hc => h c (List.mem_of_mem_drop hc)

theorem allDigits_zeros (n : ℕ) : AllDigits (FloatStyle.zeros n) := by
  intro c hc
  rw [FloatStyle.zeros, List.mem_replicate] at hc
  rw [hc.2]
  rfl

/-! ## §2. What is written. -/

theorem allDigits_ofNat (n : ℕ) : AllDigits (ofNat n) := by
  induction n using Nat.strongRecOn with
  | _ n ih =>
    have hdigit : ∀ d < 10, AllDigits [0x30 + d] := by
      intro d hd c hc
      rw [List.mem_singleton] at hc
      subst hc
      unfold CodePoint.isDigit
      rw [Bool.and_eq_true, decide_eq_true_eq, decide_eq_true_eq]
      omega
    rcases Nat.lt_or_ge n 10 with h | h
    · rw [ofNat, ofNatOnto, if_pos h]
      exact hdigit n h
    · rw [ofNat_of_ge h]
      exact (ih (n / 10) (by omega)).append (hdigit (n % 10) (by omega))

/-- A positive number does not start with a zero. -/
theorem ofNat_head {n : ℕ} (hn : 0 < n) : ∃ c r, ofNat n = c :: r ∧ c ≠ 0x30 := by
  induction n using Nat.strongRecOn with
  | _ n ih =>
    rcases Nat.lt_or_ge n 10 with h | h
    · refine ⟨0x30 + n, [], ?_, by omega⟩
      rw [ofNat, ofNatOnto, if_pos h]
    · obtain ⟨c, r, heq, hc⟩ := ih (n / 10) (by omega) (by omega)
      refine ⟨c, r ++ [0x30 + n % 10], ?_, hc⟩
      rw [ofNat_of_ge h, heq]
      rfl

theorem ofNat_ne_nil (n : ℕ) : ofNat n ≠ [] := by
  rcases Nat.eq_zero_or_pos n with rfl | hn
  · rw [ofNat, ofNatOnto, if_pos (by decide)]
    exact List.cons_ne_nil _ _
  · obtain ⟨c, r, heq, -⟩ := ofNat_head hn
    rw [heq]
    exact List.cons_ne_nil _ _

/-- The digits of a positive number. -/
structure IsLeading (digits : Text) : Prop where
  all : AllDigits digits
  head : ∃ c r, digits = c :: r ∧ c ≠ 0x30

theorem isLeading_ofNat {n : ℕ} (hn : 0 < n) : IsLeading (ofNat n) :=
  ⟨allDigits_ofNat n, ofNat_head hn⟩

/-- They stay so when something follows, or when only some of them are kept. -/
theorem IsLeading.append {digits t : Text} (h : IsLeading digits) (ht : AllDigits t) :
    IsLeading (digits ++ t) := by
  obtain ⟨c, r, rfl, hc⟩ := h.head
  exact ⟨h.all.append ht, c, r ++ t, rfl, hc⟩

theorem IsLeading.take {digits : Text} (h : IsLeading digits) {n : ℕ} (hn : 0 < n) :
    IsLeading (digits.take n) := by
  obtain ⟨c, r, heq, hc⟩ := h.head
  obtain ⟨k, rfl⟩ : ∃ k, n = k + 1 := ⟨n - 1, by omega⟩
  refine ⟨h.all.take _, c, r.take k, ?_, hc⟩
  rw [heq]
  rfl

/-! ## §3. What digits are worth. -/

theorem value_append (s t : Text) :
    value (s ++ t) = value s * 10 ^ t.length + value t := by
  -- digits are read from the left, so the induction takes them off at the right
  induction t using List.reverseRecOn with
  | nil => simp [value]
  | append_singleton t c ih =>
    have hstep : ∀ digits : Text,
        value (digits ++ [c]) = value digits * 10 + (c - 0x30) := by
      intro digits
      simp [value]
    rw [← List.append_assoc, hstep, hstep, ih, List.length_append, List.length_singleton, pow_succ]
    ring

theorem value_zeros (n : ℕ) : value (FloatStyle.zeros n) = 0 := by
  induction n with
  | zero => rfl
  | succ n ih =>
    rw [FloatStyle.zeros, List.replicate_succ', value_append]
    rw [FloatStyle.zeros] at ih
    rw [ih]
    rfl

/-- A number is written with no more digits than it was read from. -/
theorem length_ofNat_value_le {digits : Text} (hne : digits ≠ []) (h : AllDigits digits) :
    (ofNat (value digits)).length ≤ digits.length := by
  induction digits using List.reverseRecOn with
  | nil => exact absurd rfl hne
  | append_singleton s c ih =>
    have hc := isDigit_between (h c (List.mem_append_right s List.mem_cons_self))
    have hvalue : value (s ++ [c]) = value s * 10 + (c - 0x30) := by simp [value]
    rw [hvalue, List.length_append, List.length_singleton]
    rcases Nat.eq_zero_or_pos (value s) with hzero | hpos
    · -- leading zeros are not written again
      rw [hzero, ofNat, ofNatOnto, if_pos (by omega)]
      show 1 ≤ _
      omega
    · have hs : s ≠ [] := by
        intro heq
        rw [heq] at hpos
        exact absurd hpos (by decide)
      have hrest := ih hs fun x hx => h x (List.mem_append_left _ hx)
      have hten : (value s * 10 + (c - 0x30)) / 10 = value s := by omega
      rw [ofNat_of_ge (by omega), hten, List.length_append, List.length_singleton]
      omega

end EditorWire.Decimal
