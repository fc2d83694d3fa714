/-
  EditorWire.Proofs.Json.Ending — a reader leaves an ending of its text.

  Every reader takes something from the front of its text and returns the rest as
  it stands.  What it takes holds no control character but the blanks of JSON.  For
  the readers of parts this is seen one by one; series, members and values pass it
  on from what is inside:

      one t = (a, r)   →   t = … ++ r

  Main results:
    * `leavesEnding_readValue` — what is left behind a value is an ending of the text.
    * `isTextual_of_read` — no control character but blanks stands in a text that is
      read.
-/
import EditorWire.Proofs.Json.Reading
import EditorWire.Proofs.Json.Strings
import EditorWire.Proofs.Number.Digits

namespace EditorWire.Json

/-! ## §1. Endings of a text. -/

/-- A blank, or no control character. -/
def isTextual (c : Nat) : Bool := isBlank c || decide (0x20 ≤ c)

theorem isTextual_of_le {c : Nat} (h : 0x20 ≤ c) : isTextual c = true := by
  simp [isTextual, h]

/-- Some of `t` was taken from its front, and `r` is left. -/
def Leaves (t r : Text) : Prop := ∃ s, t = s ++ r ∧ ∀ c ∈ s, isTextual c = true

theorem Leaves.refl (t : Text) : Leaves t t := ⟨[], rfl, List.forall_mem_nil _⟩

theorem leaves_append {s : Text} (hs : ∀ c ∈ s, isTextual c = true) (r : Text) :
    Leaves (s ++ r) r := ⟨s, rfl, hs⟩

theorem leaves_cons {c : Nat} (hc : isTextual c = true) (r : Text) : Leaves (c :: r) r :=
  leaves_append (List.forall_mem_singleton.2 hc) r

theorem Leaves.trans {t s r : Text} (h : Leaves t s) (h' : Leaves s r) : Leaves t r := by
  obtain ⟨a, rfl, ha⟩ := h
  obtain ⟨b, rfl, hb⟩ := h'
  exact ⟨a ++ b, (List.append_assoc a b r).symm, List.forall_mem_append.2 ⟨ha, hb⟩⟩

theorem Leaves.length_le {t r : Text} (h : Leaves t r) : r.length ≤ t.length := by
  obtain ⟨s, rfl, -⟩ := h
  rw [List.length_append]
  exact Nat.le_add_left _ _

theorem leaves_dropWhile {p : Nat → Bool} (hp : ∀ c, p c = true → isTextual c = true) (t : Text) :
    Leaves t (t.dropWhile p) := by
  refine ⟨t.takeWhile p, List.takeWhile_append_dropWhile.symm, ?_⟩
  intro c hc
  exact hp c (List.all_eq_true.1 List.all_takeWhile c hc)

/-- The reader leaves an ending of its text. -/
def LeavesEnding {α : Type} (one : Text → Except ReadFault (α × Text)) : Prop :=
  ∀ t a r, one t = .ok (a, r) → Leaves t r

variable {d : Dialect} {item : ItemReader}

/-! ## §2. Blanks and the parts of a number. -/

theorem leaves_skipBlank (t : Text) : Leaves t (skipBlank t) :=
  leaves_dropWhile (fun c hc => by rw [isTextual, hc, Bool.true_or]) t

theorem isTextual_of_isDigit {c : Nat} (h : CodePoint.isDigit c = true) : isTextual c = true := by
  have hbetween := Decimal.isDigit_between h
  exact isTextual_of_le (by omega)

theorem leaves_readDigits (t : Text) : Leaves t (readDigits t).2 :=
  leaves_dropWhile (fun _ hc => isTextual_of_isDigit hc) t

theorem leaves_readMinus (t : Text) : Leaves t (readMinus t).2 := by
  unfold readMinus
  split
  · exact leaves_cons rfl _
  · exact .refl t

theorem leaves_of_readWhole? {t whole r : Text} (h : readWhole? t = some (whole, r)) :
    Leaves t r := by
  unfold readWhole? at h
  split at h
  · next s =>
    obtain ⟨-, rfl⟩ := Prod.mk.inj (Option.some.inj h)
    exact leaves_cons rfl _
  · next c s _ =>
    split at h
    · next hc =>
      obtain ⟨-, rfl⟩ := Prod.mk.inj (Option.some.inj h)
      exact (leaves_cons (isTextual_of_isDigit hc) s).trans (leaves_readDigits s)
    · cases h
  · cases h

theorem leaves_readFraction (t : Text) : Leaves t (readFraction t).2 := by
  unfold readFraction
  split
  · next r =>
    have hdigits := leaves_readDigits r
    split
    · exact .refl _
    · next digits rest hread =>
      rw [hread] at hdigits
      exact (leaves_cons rfl r).trans hdigits
  · exact .refl t

theorem leaves_readSign (t : Text) : Leaves t (readSign t).2 := by
  unfold readSign
  split
  · exact leaves_cons rfl _
  · exact leaves_cons rfl _
  · exact .refl t

theorem leaves_readExponent (t : Text) : Leaves t (readExponent t).2 := by
  unfold readExponent
  split
  · exact .refl []
  · next c r =>
    split
    · next hmark =>
      have hc : isTextual c = true := by
        rcases hmark with rfl | rfl <;> rfl
      have hdigits := leaves_readDigits (readSign r).2
      split
      · exact .refl _
      · next digits rest hread =>
        rw [hread] at hdigits
        exact ((leaves_cons hc r).trans (leaves_readSign r)).trans hdigits
    · exact .refl _

theorem leaves_of_readNumeral? {t r : Text} {n : Numeral} (h : readNumeral? t = some (n, r)) :
    Leaves t r := by
  obtain ⟨r₁, r₂, r₃, hminus, hwhole, hfraction, hexponent⟩ := readNumeral?_eq_some_iff.1 h
  have h₁ := leaves_readMinus t
  have h₃ := leaves_readFraction r₂
  have h₄ := leaves_readExponent r₃
  rw [hminus] at h₁
  rw [hfraction] at h₃
  rw [hexponent] at h₄
  exact ((h₁.trans (leaves_of_readWhole? hwhole)).trans h₃).trans h₄

/-! ## §3. Atoms and strings. -/

theorem leavesEnding_readAtom : LeavesEnding (readAtom d) := by
  intro t v r h
  rcases readAtom_eq_ok_iff.1 h with hnamed | ⟨-, n, hnumeral, -⟩
  · obtain ⟨name, hentry, rfl⟩ := readNamed?_eq_some_iff.1 hnamed
    have hnames : ∀ entry ∈ namedValues, ∀ c ∈ entry.1, isTextual c = true := by decide
    exact leaves_append (hnames _ hentry) r
  · exact leaves_of_readNumeral? hnumeral

theorem leaves_of_readString {start body t r : Text} (h : readString d start body = .ok (t, r)) :
    Leaves body r := by
  obtain ⟨pieces, hpieces, -, -⟩ := readString_eq_ok_iff.1 h
  obtain ⟨s, rfl, hs⟩ := hpieces.exists_append
  exact leaves_append (fun c hc => isTextual_of_le (hs c hc)) r

/-! ## §4. Series. -/

section Series

variable {α : Type} {close : Nat} {missing : Reason} {one : Text → Except ReadFault (α × Text)}

/-- What stands behind a mark that something is followed by is an ending too. -/
theorem Leaves.of_skipBlank {t r s : Text} {c : Nat} (hr : Leaves t r) (h : skipBlank r = c :: s)
    (hc : isTextual c = true) : Leaves t s := by
  have hs := leaves_skipBlank r
  rw [h] at hs
  exact (hr.trans hs).trans (leaves_cons hc s)

theorem LeavesEnding.readSeries (hone : LeavesEnding one) (hclose : close ≠ Ascii.comma)
    (htextual : isTextual close = true) {k : Nat} {t r : Text} {as : List α}
    (h : readSeries close missing one k t = .ok (as, r)) : Leaves t r := by
  induction k generalizing t as with
  | zero => cases h
  | succ k ih =>
    obtain ⟨a, r', k', hk, ha, hnext⟩ := (readSeries_eq_ok_iff hclose).1 h
    obtain rfl := Nat.succ.inj hk
    have hfirst := hone t a r' ha
    rcases hnext with ⟨hend, -⟩ | ⟨s, bs, hcomma, hseries, -⟩
    · exact hfirst.of_skipBlank hend htextual
    · exact ((hfirst.of_skipBlank hcomma rfl).trans (leaves_skipBlank s)).trans (ih hseries)

theorem LeavesEnding.readEnclosed (hone : LeavesEnding one) (hclose : close ≠ Ascii.comma)
    (htextual : isTextual close = true) : LeavesEnding (readEnclosed close missing one) := by
  intro t as r h
  rcases readEnclosed_eq_ok_iff.1 h with ⟨hend, -⟩ | ⟨-, hseries⟩
  · exact (Leaves.refl t).of_skipBlank hend htextual
  · exact (leaves_skipBlank t).trans (hone.readSeries hclose htextual hseries)

end Series

/-! ## §5. Values. -/

theorem LeavesEnding.readMember (hitem : LeavesEnding item) : LeavesEnding (readMember d item) := by
  intro t m r h
  obtain ⟨s, r', r'', rfl, hname, hcolon, hv⟩ := readMember_eq_ok_iff.1 h
  have hquote : isTextual Ascii.quote = true := rfl
  have hbehind := (leaves_cons hquote s).trans (leaves_of_readString hname)
  exact ((hbehind.of_skipBlank hcolon rfl).trans (leaves_skipBlank r'')).trans (hitem _ m.2 r hv)

/-- **What is left behind a value is an ending of the text**, whatever the level. -/
theorem leavesEnding_readValue (n : Nat) : LeavesEnding (readValue d n) := by
  refine readValue_induction (fun t v r h => ?_) (fun n hinner t v r h => ?_) n
  · cases h
  · rcases readValue_eq_ok_iff.1 h with ⟨s, x, rfl, hx, -⟩ | ⟨s, items, rfl, -, hitems, -⟩ |
      ⟨s, members, rfl, -, hmembers, -⟩ | hatom
    · exact (leaves_cons rfl s).trans (leaves_of_readString hx)
    · rw [readArray_eq_readEnclosed] at hitems
      exact (leaves_cons rfl s).trans (hinner.readEnclosed (by decide) rfl s items r hitems)
    · rw [readObject_eq_readEnclosed] at hmembers
      exact (leaves_cons rfl s).trans
        (hinner.readMember.readEnclosed (by decide) rfl s members r hmembers)
    · exact leavesEnding_readAtom t v r hatom

theorem leavesEnding_innerReader (n : Nat) : LeavesEnding (innerReader d n) := by
  cases n with
  | zero =>
    intro t v r h
    cases h
  | succ n => exact leavesEnding_readValue n

/-- **No control character but blanks stands in a text that is read.** -/
theorem isTextual_of_read {t : Text} {v : Json} (h : read d t = .ok v) :
    ∀ c ∈ t, isTextual c = true := by
  obtain ⟨r, hread, hrest⟩ := read_eq_ok_iff.1 h
  have hvalue := (leaves_skipBlank t).trans (leavesEnding_readValue _ _ v r hread)
  have hend := leaves_skipBlank r
  rw [hrest] at hend
  obtain ⟨s, hs, htextual⟩ := hvalue.trans hend
  rw [hs, List.append_nil]
  exact htextual

end EditorWire.Json
