/-
  EditorWire.Proofs.Text.Cut — cutting a text, said without the cutter.

  `Cut p t before after` holds when `before` is the longest part in front of `t`
  that is free of the class `p`, and `after` is the rest.  There is one such cut
  for every text, and it is the one `Text.cutAt` makes; `Text.cutAround` makes it
  and drops the code point it stopped at.
-/
import EditorWire.Text.CodePoint

namespace EditorWire.Text

/-- `t` is cut in front of its first code point of the class `p`. -/
structure Cut (p : Nat → Bool) (t before after : Text) : Prop where
  /-- Nothing is lost. -/
  whole : t = before ++ after
  /-- The class does not occur in front of the cut. -/
  free : ∀ c ∈ before, p c = false
  /-- What stands behind the cut, if anything does, starts with the class. -/
  stops : ∀ c r, after = c :: r → p c = true

/-- `cutAt` makes the cut. -/
theorem cutAt_eq_iff {p : Nat → Bool} {t before after : Text} :
    cutAt p t = (before, after) ↔ Cut p t before after := by
  constructor
  · intro h
    simp only [cutAt, Prod.mk.injEq] at h
    obtain ⟨rfl, rfl⟩ := h
    refine ⟨List.takeWhile_append_dropWhile.symm, ?_, ?_⟩
    · intro c hc
      have hfree := List.all_eq_true.1 List.all_takeWhile c hc
      simpa using hfree
    · intro c r hr
      have hhead := List.head?_dropWhile_not (fun c => !p c) t
      rw [hr] at hhead
      simpa using hhead
  · rintro ⟨rfl, hfree, hstops⟩
    have hall : ∀ c ∈ before, (!p c) = true := fun c hc => by simp [hfree c hc]
    have hhead : (after.takeWhile fun c => !p c) = []
        ∧ (after.dropWhile fun c => !p c) = after := by
      cases after with
      | nil => exact ⟨rfl, rfl⟩
      | cons c r => simp [hstops c r rfl]
    simp only [cutAt, Prod.mk.injEq]
    rw [List.takeWhile_append_of_pos hall, List.dropWhile_append_of_pos hall, hhead.1, hhead.2]
    exact ⟨List.append_nil before, rfl⟩

/-- Every text has its cut. -/
theorem cut_cutAt (p : Nat → Bool) (t : Text) : Cut p t (cutAt p t).1 (cutAt p t).2 :=
  cutAt_eq_iff.1 rfl

/-- There is no other. -/
theorem Cut.eq_of_cut {p : Nat → Bool} {t before after before' after' : Text}
    (h : Cut p t before after) (h' : Cut p t before' after') :
    before' = before ∧ after' = after := by
  have heq := (cutAt_eq_iff.2 h').symm.trans (cutAt_eq_iff.2 h)
  exact Prod.mk.inj heq

/-- A text free of the class is cut at its end. -/
theorem Cut.of_free {p : Nat → Bool} {t : Text} (h : ∀ c ∈ t, p c = false) : Cut p t t [] :=
  ⟨(List.append_nil t).symm, h, fun _ _ hr => by cases hr⟩

/-- Around a separator: what stands in front of it is free of it. -/
theorem cutAround_append {c : Nat} {before : Text} (h : c ∉ before) (after : Text) :
    cutAround c (before ++ c :: after) = (before, some after) := by
  have hcut : cutAt (· == c) (before ++ c :: after) = (before, c :: after) := by
    refine cutAt_eq_iff.2 ⟨rfl, ?_, ?_⟩
    · intro x hx
      have hne : x ≠ c := fun hxc => h (hxc ▸ hx)
      simpa using hne
    · rintro x r hr
      cases hr
      simp
  simp only [cutAround, hcut]

/-- A separator was found only where one is. -/
theorem eq_append_of_cutAround {c : Nat} {t before after : Text}
    (h : cutAround c t = (before, some after)) : t = before ++ c :: after := by
  have hcut := cut_cutAt (· == c) t
  unfold cutAround at h
  split at h
  · next x y z heq =>
    cases h
    rw [heq] at hcut
    have hyc : (y == c) = true := hcut.stops y after rfl
    rw [hcut.whole, eq_of_beq hyc]
  · cases h

/-- What stands in front of the first separator is the cut in front of it. -/
theorem cutAround_fst (c : Nat) (t : Text) : (cutAround c t).1 = (cutAt (· == c) t).1 := by
  unfold cutAround
  split
  · next heq => rw [heq]
  · next heq => rw [heq]

/-- Cutting in front of one separator and then of another is cutting in front of either. -/
theorem Cut.cutAround_cutAround {c d : Nat} {t before after : Text}
    (h : Cut (fun x => x == c || x == d) t before after) :
    (cutAround d (cutAround c t).1).1 = before := by
  obtain ⟨rfl, hfree, hstops⟩ := h
  have hc : ∀ x ∈ before, (x == c) = false := fun x hx => (Bool.or_eq_false_iff.1 (hfree x hx)).1
  have hd : ∀ x ∈ before, (x == d) = false := fun x hx => (Bool.or_eq_false_iff.1 (hfree x hx)).2
  rw [cutAround_fst, cutAround_fst]
  -- the first cut leaves `before` and a piece that starts with the other separator
  have hfirst : (cutAt (· == c) (before ++ after)).1 = before ++ (cutAt (· == c) after).1 := by
    have hall : ∀ x ∈ before, (!(x == c)) = true := fun x hx => by rw [hc x hx]; rfl
    simp only [cutAt]
    rw [List.takeWhile_append_of_pos hall]
  rw [hfirst]
  have hcut : Cut (· == d) (before ++ (cutAt (· == c) after).1) before
      (cutAt (· == c) after).1 := by
    refine ⟨rfl, hd, ?_⟩
    -- what is left of `after` starts with the other separator, or there is nothing left
    intro x r hr
    cases after with
    | nil => cases hr
    | cons y s =>
      have hy := hstops y s rfl
      by_cases hyc : (y == c) = true
      · simp [cutAt, hyc] at hr
      · rw [Bool.not_eq_true] at hyc
        simp only [cutAt, List.takeWhile_cons, hyc, Bool.not_false, if_true] at hr
        cases hr
        simpa [hyc] using hy
  exact congrArg Prod.fst (cutAt_eq_iff.2 hcut)

end EditorWire.Text
