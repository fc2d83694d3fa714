/-
  EditorWire.Proofs.Json.Series — the loop that arrays and objects share.

  Items and members are read alike, one after another with commas between them up
  to a closing mark.  Here the loop is written once, over a reader of one of them,
  so that what holds of it holds of both:

      readItems item      =  readSeries closeBracket item
      readMembers d item  =  readSeries closeBrace (readMember d item)

  Main results:
    * `readSeries_eq_ok_iff` — what a round that succeeds has done.
    * `forall_of_readEnclosed` — what the reader of one gives, all of them have.
-/
import EditorWire.Json.Reader
import EditorWire.Proofs.Result

namespace EditorWire.Json

variable {α : Type} {close : Nat} {missing : Reason} {one : Text → Except ReadFault (α × Text)}

/-! ## §1. The loop. -/

/-- One thing after another up to the closing mark; each takes one of the rounds. -/
def readSeries (close : Nat) (missing : Reason) (one : Text → Except ReadFault (α × Text)) :
    (rounds : Nat) → Text → Except ReadFault (List α × Text)
  | 0, t => .error (.malformed missing t)
  | rounds + 1, t => do
      let (a, r) ← one t
      match skipBlank r with
      | [] => .error (.malformed .commaExpected [])
      | c :: r =>
          if c = close then .ok ([a], r)
          else if c = Ascii.comma then do
            let (as, r) ← readSeries close missing one rounds (skipBlank r)
            .ok (a :: as, r)
          else .error (.malformed .commaExpected (c :: r))

/-- The series behind an opening mark, which may be empty. -/
def readEnclosed (close : Nat) (missing : Reason) (one : Text → Except ReadFault (α × Text))
    (t : Text) : Except ReadFault (List α × Text) :=
  if (skipBlank t).head? = some close then .ok ([], (skipBlank t).tail)
  else readSeries close missing one ((skipBlank t).length + 1) (skipBlank t)

theorem readItems_eq_readSeries (item : ItemReader) (rounds : Nat) (t : Text) :
    readItems item rounds t = readSeries Ascii.closeBracket .valueExpected item rounds t := by
  induction rounds generalizing t with
  | zero => rfl
  | succ rounds ih =>
    rw [readItems, readSeries]
    refine congrArg (item t >>= ·) (funext fun result => ?_)
    simp only
    split
    · next r heq =>
      rw [heq]
      rfl
    · next r heq =>
      rw [heq, ih]
      rfl
    -- neither mark stands there, so both readers fail
    · next hclose hcomma =>
      cases heq : skipBlank result.2 with
      | nil => rfl
      | cons c r =>
        have hc : c ≠ Ascii.closeBracket := fun h => hclose r (by rw [heq, h])
        have hc' : c ≠ Ascii.comma := fun h => hcomma r (by rw [heq, h])
        simp only
        rw [if_neg hc, if_neg hc']

theorem readMembers_eq_readSeries (d : Dialect) (item : ItemReader) (rounds : Nat) (t : Text) :
    readMembers d item rounds t
      = readSeries Ascii.closeBrace .nameExpected (readMember d item) rounds t := by
  induction rounds generalizing t with
  | zero => rfl
  | succ rounds ih =>
    rw [readMembers, readSeries]
    refine congrArg (readMember d item t >>= ·) (funext fun result => ?_)
    simp only
    split
    · next r heq =>
      rw [heq]
      rfl
    · next r heq =>
      rw [heq, ih]
      rfl
    -- neither mark stands there, so both readers fail
    · next hclose hcomma =>
      cases heq : skipBlank result.2 with
      | nil => rfl
      | cons c r =>
        have hc : c ≠ Ascii.closeBrace := fun h => hclose r (by rw [heq, h])
        have hc' : c ≠ Ascii.comma := fun h => hcomma r (by rw [heq, h])
        simp only
        rw [if_neg hc, if_neg hc']

theorem readArray_eq_readEnclosed (item : ItemReader) (t : Text) :
    readArray item t = readEnclosed Ascii.closeBracket .valueExpected item t := by
  unfold readArray readEnclosed
  split
  · next r heq =>
    rw [heq]
    rfl
  · next hclose =>
    have hhead : (skipBlank t).head? ≠ some Ascii.closeBracket := by
      intro h
      obtain ⟨r, hr⟩ := List.head?_eq_some_iff.1 h
      exact hclose r hr
    rw [if_neg hhead, readItems_eq_readSeries]

theorem readObject_eq_readEnclosed (d : Dialect) (item : ItemReader) (t : Text) :
    readObject d item t = readEnclosed Ascii.closeBrace .nameExpected (readMember d item) t := by
  unfold readObject readEnclosed
  split
  · next r heq =>
    rw [heq]
    rfl
  · next hclose =>
    have hhead : (skipBlank t).head? ≠ some Ascii.closeBrace := by
      intro h
      obtain ⟨r, hr⟩ := List.head?_eq_some_iff.1 h
      exact hclose r hr
    rw [if_neg hhead, readMembers_eq_readSeries]

/-! ## §2. What it has done. -/

/-- A round reads one thing, and then the closing mark or a comma and the rest of the series. -/
theorem readSeries_eq_ok_iff (hclose : close ≠ Ascii.comma) {rounds : Nat} {t r : Text}
    {as : List α} :
    readSeries close missing one rounds t = .ok (as, r)
      ↔ ∃ a r' k, rounds = k + 1 ∧ one t = .ok (a, r')
        ∧ ((skipBlank r' = close :: r ∧ as = [a])
          ∨ ∃ s bs, skipBlank r' = Ascii.comma :: s
            ∧ readSeries close missing one k (skipBlank s) = .ok (bs, r) ∧ as = a :: bs) := by
  constructor
  · intro h
    cases rounds with
    | zero => cases h
    | succ k =>
      rw [readSeries, Result.bind_eq_ok_iff] at h
      obtain ⟨⟨a, r'⟩, hone, h⟩ := h
      refine ⟨a, r', k, rfl, hone, ?_⟩
      simp only at h
      split at h
      · cases h
      · next c s hs =>
        rw [hs]
        split at h
        · next hc =>
          obtain ⟨rfl, rfl⟩ := Prod.mk.inj (Except.ok.inj h)
          exact .inl ⟨by rw [hc], rfl⟩
        split at h
        · next hc =>
          obtain ⟨⟨bs, r''⟩, hseries, h⟩ := Result.bind_eq_ok_iff.1 h
          obtain ⟨rfl, rfl⟩ := Prod.mk.inj (Except.ok.inj h)
          exact .inr ⟨s, bs, by rw [hc], hseries, rfl⟩
        · cases h
  · rintro ⟨a, r', k, rfl, hone, hnext⟩
    rw [readSeries, Result.bind_eq_ok_iff]
    refine ⟨(a, r'), hone, ?_⟩
    simp only
    rcases hnext with ⟨hend, rfl⟩ | ⟨s, bs, hcomma, hseries, rfl⟩
    · rw [hend]
      simp only [if_true]
    · rw [hcomma]
      simp only [if_neg (Ne.symm hclose), if_true]
      exact Result.bind_eq_ok_iff.2 ⟨(bs, r), hseries, rfl⟩

theorem readEnclosed_eq_ok_iff {t r : Text} {as : List α} :
    readEnclosed close missing one t = .ok (as, r)
      ↔ (skipBlank t = close :: r ∧ as = [])
        ∨ ((skipBlank t).head? ≠ some close
          ∧ readSeries close missing one ((skipBlank t).length + 1) (skipBlank t)
            = .ok (as, r)) := by
  unfold readEnclosed
  by_cases hhead : (skipBlank t).head? = some close
  · obtain ⟨s, hs⟩ := List.head?_eq_some_iff.1 hhead
    rw [if_pos hhead, hs, List.tail_cons, List.head?_cons]
    constructor
    · intro h
      obtain ⟨rfl, rfl⟩ := Prod.mk.inj (Except.ok.inj h)
      exact .inl ⟨rfl, rfl⟩
    · rintro (⟨hr, rfl⟩ | ⟨hne, -⟩)
      · rw [(List.cons.inj hr).2]
      · exact absurd rfl hne
  · rw [if_neg hhead]
    constructor
    · exact fun h => .inr ⟨hhead, h⟩
    · rintro (⟨hr, -⟩ | ⟨-, h⟩)
      · exact absurd (by rw [hr, List.head?_cons]) hhead
      · exact h

/-- What one of them has whenever it is read, all of a series have. -/
theorem forall_of_readSeries (hclose : close ≠ Ascii.comma) {p : α → Prop}
    (hone : ∀ t a r, one t = .ok (a, r) → p a) {rounds : Nat} {t r : Text} {as : List α}
    (h : readSeries close missing one rounds t = .ok (as, r)) : ∀ a ∈ as, p a := by
  induction rounds generalizing t as with
  | zero => cases h
  | succ rounds ih =>
    obtain ⟨a, r', k, hk, ha, hnext⟩ := (readSeries_eq_ok_iff hclose).1 h
    obtain rfl := Nat.succ.inj hk
    rcases hnext with ⟨-, rfl⟩ | ⟨s, bs, -, hbs, rfl⟩
    · rw [List.forall_mem_singleton]
      exact hone t a r' ha
    · rw [List.forall_mem_cons]
      exact ⟨hone t a r' ha, ih hbs⟩

theorem forall_of_readEnclosed (hclose : close ≠ Ascii.comma) {p : α → Prop}
    (hone : ∀ t a r, one t = .ok (a, r) → p a) {t r : Text} {as : List α}
    (h : readEnclosed close missing one t = .ok (as, r)) : ∀ a ∈ as, p a := by
  rcases readEnclosed_eq_ok_iff.1 h with ⟨-, rfl⟩ | ⟨-, hseries⟩
  · exact fun a ha => absurd ha List.not_mem_nil
  · exact forall_of_readSeries hclose hone hseries

end EditorWire.Json
