/-
  EditorWire.Proofs.Json.Extension — what is read is read whatever follows.

  A reader that succeeds on a text has seen all of a value and nothing behind it.
  Only numbers have no end of their own, so what follows must be something that
  cannot go on with one, and a comma or a closing mark cannot:

      one t = (a, r)   →   one (t ++ rest) = (a, r ++ rest)

  Each reader passes this on from the reader of what is inside, and so it holds
  on every level.

  Main result:
    * `extends_readValue` — a value is read as before when a delimiter follows its text.
-/
import EditorWire.Proofs.Json.ReadBack

namespace EditorWire.Json

open Decimal (AllDigits)

/-- A reader that reads what it reads also with more behind it, and nothing from nothing. -/
structure Extends {α : Type} (one : Text → Except ReadFault (α × Text)) : Prop where
  append : ∀ {t r : Text} {a : α}, one t = .ok (a, r) → ∀ {rest : Text}, Delimited rest →
    one (t ++ rest) = .ok (a, r ++ rest)
  nil : ∀ result, one [] ≠ .ok result

variable {d : Dialect} {rest : Text}

/-! ## §1. Blanks. -/

theorem skipBlank_append_of_ne_nil {t : Text} (h : skipBlank t ≠ []) (rest : Text) :
    skipBlank (t ++ rest) = skipBlank t ++ rest := by
  unfold skipBlank at h ⊢
  rw [List.dropWhile_append, if_neg (by rw [List.isEmpty_iff]; exact h)]

theorem skipBlank_append_of_eq_nil {t : Text} (h : skipBlank t = []) (rest : Text) :
    skipBlank (t ++ rest) = skipBlank rest := by
  unfold skipBlank at h ⊢
  rw [List.dropWhile_append, if_pos (by rw [List.isEmpty_iff]; exact h)]

theorem skipBlank_append_of_eq_cons {t s : Text} {c : Nat} (h : skipBlank t = c :: s)
    (rest : Text) : skipBlank (t ++ rest) = c :: (s ++ rest) := by
  rw [skipBlank_append_of_ne_nil (by rw [h]; exact List.cons_ne_nil c s), h, List.cons_append]

/-- What is read behind blanks is read there with more behind it. -/
theorem Extends.append_skipBlank {α : Type} {one : Text → Except ReadFault (α × Text)}
    (hone : Extends one) {t r : Text} {a : α} (h : one (skipBlank t) = .ok (a, r))
    (hrest : Delimited rest) : one (skipBlank (t ++ rest)) = .ok (a, r ++ rest) := by
  have hne : skipBlank t ≠ [] := by
    intro hnil
    rw [hnil] at h
    exact hone.nil _ h
  rw [skipBlank_append_of_ne_nil hne]
  exact hone.append h hrest

/-! ## §2. Numbers. -/

theorem readDigits_extend (t : Text) (hrest : NoDigit rest) :
    readDigits (t ++ rest) = ((readDigits t).1, (readDigits t).2 ++ rest) := by
  induction t with
  | nil =>
    have hnone : AllDigits [] := fun c hc => absurd hc List.not_mem_nil
    exact readDigits_append hnone hrest
  | cons c t ih =>
    unfold readDigits at ih ⊢
    obtain ⟨htake, hdrop⟩ := Prod.mk.inj ih
    rw [List.cons_append, List.takeWhile_cons, List.takeWhile_cons, List.dropWhile_cons,
      List.dropWhile_cons]
    cases CodePoint.isDigit c with
    | true =>
      simp only [if_true]
      rw [htake, hdrop]
    | false => rfl

theorem readMinus_extend {t : Text} (hne : t ≠ []) (rest : Text) :
    readMinus (t ++ rest) = ((readMinus t).1, (readMinus t).2 ++ rest) := by
  obtain ⟨c, s, rfl⟩ := List.exists_cons_of_ne_nil hne
  by_cases hc : c = Ascii.hyphen
  · rw [hc]
    rfl
  · rw [List.cons_append, readMinus_of_ne _ hc, readMinus_of_ne _ hc, List.cons_append]

theorem readWhole?_extend {t whole r : Text} (h : readWhole? t = some (whole, r))
    (hrest : NoDigit rest) : readWhole? (t ++ rest) = some (whole, r ++ rest) := by
  cases t with
  | nil => cases h
  | cons c s =>
    by_cases hc : c = 0x30
    · rw [hc] at h ⊢
      obtain ⟨rfl, rfl⟩ := Prod.mk.inj (Option.some.inj h)
      rfl
    · rw [readWhole?_of_ne s hc] at h
      rw [List.cons_append, readWhole?_of_ne (s ++ rest) hc, readDigits_extend s hrest]
      split at h
      · next hdigit =>
        obtain ⟨rfl, rfl⟩ := Prod.mk.inj (Option.some.inj h)
        rw [if_pos hdigit]
      · cases h

theorem readFraction_extend (t : Text) (hrest : Delimited rest) :
    readFraction (t ++ rest) = ((readFraction t).1, (readFraction t).2 ++ rest) := by
  cases t with
  | nil =>
    cases rest with
    | nil => rfl
    | cons c s =>
      rcases hrest c s rfl with rfl | rfl | rfl <;> rfl
  | cons c s =>
    by_cases hc : c = Ascii.dot
    · rw [hc, List.cons_append]
      show readFraction (Ascii.dot :: (s ++ rest)) = _
      unfold readFraction
      simp only
      rw [readDigits_extend s hrest.noDigit]
      obtain ⟨digits, r⟩ := readDigits s
      cases digits <;> rfl
    · rw [List.cons_append, readFraction_of_ne _ hc, readFraction_of_ne _ hc, List.cons_append]

theorem readSign_extend (t : Text) (hrest : Delimited rest) :
    readSign (t ++ rest) = ((readSign t).1, (readSign t).2 ++ rest) := by
  cases t with
  | nil =>
    cases rest with
    | nil => rfl
    | cons c s =>
      rcases hrest c s rfl with rfl | rfl | rfl <;> rfl
  | cons c s =>
    by_cases hhyphen : c = Ascii.hyphen
    · rw [hhyphen]
      rfl
    by_cases hplus : c = Ascii.plus
    · rw [hplus]
      rfl
    · rw [List.cons_append, readSign_of_ne _ hhyphen hplus,
        readSign_of_ne _ hhyphen hplus, List.cons_append]

theorem readExponent_extend (t : Text) (hrest : Delimited rest) :
    readExponent (t ++ rest) = ((readExponent t).1, (readExponent t).2 ++ rest) := by
  cases t with
  | nil =>
    cases rest with
    | nil => rfl
    | cons c s =>
      rcases hrest c s rfl with rfl | rfl | rfl <;> rfl
  | cons c s =>
    rw [List.cons_append, readExponent, readExponent]
    split
    · rw [readSign_extend s hrest]
      simp only
      rw [readDigits_extend _ hrest.noDigit]
      obtain ⟨digits, r⟩ := readDigits (readSign s).2
      cases digits <;> rfl
    · rfl

theorem readNumeral?_extend {t r : Text} {n : Numeral} (h : readNumeral? t = some (n, r))
    (hrest : Delimited rest) : readNumeral? (t ++ rest) = some (n, r ++ rest) := by
  obtain ⟨r₁, r₂, r₃, hminus, hwhole, hfraction, hexponent⟩ := readNumeral?_eq_some_iff.1 h
  have hne : t ≠ [] := by
    rintro rfl
    cases h
  refine readNumeral?_eq_some_iff.2 ⟨r₁ ++ rest, r₂ ++ rest, r₃ ++ rest, ?_,
    readWhole?_extend hwhole hrest.noDigit, ?_, ?_⟩
  · rw [readMinus_extend hne, hminus]
  · rw [readFraction_extend r₂ hrest, hfraction]
  · rw [readExponent_extend r₃ hrest, hexponent]

/-! ## §3. Atoms. -/

/-- A number starts with a digit behind its sign. -/
theorem exists_digit_of_readNumeral? {t r : Text} {n : Numeral}
    (h : readNumeral? t = some (n, r)) :
    ∃ c s, t = FloatStyle.signed n.negative (c :: s) ∧ CodePoint.isDigit c = true := by
  obtain ⟨r₁, r₂, r₃, hminus, hwhole, -, -⟩ := readNumeral?_eq_some_iff.1 h
  obtain ⟨c, s, rfl, hc⟩ : ∃ c s, r₁ = c :: s ∧ CodePoint.isDigit c = true := by
    cases r₁ with
    | nil => cases hwhole
    | cons c s =>
      refine ⟨c, s, rfl, ?_⟩
      by_cases hc : c = 0x30
      · rw [hc]
        rfl
      · rw [readWhole?_of_ne s hc] at hwhole
        split at hwhole
        · assumption
        · cases hwhole
  refine ⟨c, s, ?_, hc⟩
  unfold readMinus at hminus
  split at hminus
  · obtain ⟨hnegative, rfl⟩ := Prod.mk.inj hminus
    rw [← hnegative]
    rfl
  · obtain ⟨hnegative, rfl⟩ := Prod.mk.inj hminus
    rw [← hnegative]
    rfl

theorem extends_readAtom : Extends (readAtom d) where
  append := by
    intro t r v h rest hrest
    rw [readAtom_eq_ok_iff] at h ⊢
    rcases h with hnamed | ⟨-, n, hnumeral, hv⟩
    · obtain ⟨name, hentry, rfl⟩ := readNamed?_eq_some_iff.1 hnamed
      exact .inl (readNamed?_eq_some_iff.2 ⟨name, hentry, List.append_assoc _ _ _⟩)
    · -- with more behind it a number is no name either
      obtain ⟨c, s, rfl, hc⟩ := exists_digit_of_readNumeral? hnumeral
      have hnamed : readNamed? (FloatStyle.signed n.negative (c :: s) ++ rest) = none := by
        cases n.negative with
        | true => exact readNamed?_signed true (s ++ rest) hc
        | false => exact readNamed?_signed false (s ++ rest) hc
      exact .inr ⟨hnamed, n, readNumeral?_extend hnumeral hrest, hv⟩
  nil := by
    intro result h
    cases h

/-! ## §4. Strings. -/

theorem HasPieces.extend {t r : Text} {pieces : List Piece} (h : HasPieces t pieces r)
    (rest : Text) : HasPieces (t ++ rest) pieces (r ++ rest) := by
  induction h with
  | quote r => exact .quote (r ++ rest)
  | plain hquote hbackslash hcontrol _ ih => exact .plain hquote hbackslash hcontrol ih
  | short he _ ih => exact .short he ih
  | numeric hn _ ih => exact .numeric hn ih

/-- A string has an end of its own, so anything may follow. -/
theorem readString_extend {start start' body t r : Text}
    (h : readString d start body = .ok (t, r)) (rest : Text) :
    readString d start' (body ++ rest) = .ok (t, r ++ rest) := by
  obtain ⟨pieces, hpieces, heq, hadmits⟩ := readString_eq_ok_iff.1 h
  exact readString_eq_ok_iff.2 ⟨pieces, hpieces.extend rest, heq, hadmits⟩

/-! ## §5. Series. -/

section Series

variable {α : Type} {close : Nat} {missing : Reason} {one : Text → Except ReadFault (α × Text)}

/-- A series takes as many rounds as before, and may be allowed more. -/
theorem Extends.readSeries (hone : Extends one) (hclose : close ≠ Ascii.comma) {k k' : Nat}
    {t r : Text} {as : List α} (h : readSeries close missing one k t = .ok (as, r)) (hk : k ≤ k')
    (hrest : Delimited rest) :
    readSeries close missing one k' (t ++ rest) = .ok (as, r ++ rest) := by
  induction k generalizing t as k' with
  | zero => cases h
  | succ k ih =>
    obtain ⟨a, r', k₀, hk₀, ha, hnext⟩ := (readSeries_eq_ok_iff hclose).1 h
    obtain rfl := Nat.succ.inj hk₀
    obtain ⟨j, rfl⟩ : ∃ j, k' = j + 1 := ⟨k' - 1, by omega⟩
    refine (readSeries_eq_ok_iff hclose).2 ⟨a, r' ++ rest, j, rfl, hone.append ha hrest, ?_⟩
    rcases hnext with ⟨hend, rfl⟩ | ⟨s, bs, hcomma, hseries, rfl⟩
    · exact .inl ⟨skipBlank_append_of_eq_cons hend rest, rfl⟩
    · refine .inr ⟨s ++ rest, bs, skipBlank_append_of_eq_cons hcomma rest, ?_, rfl⟩
      -- something is read behind the comma, so something stands there
      have hne : skipBlank s ≠ [] := by
        intro hnil
        rw [hnil] at hseries
        obtain ⟨b, r'', -, -, hb, -⟩ := (readSeries_eq_ok_iff hclose).1 hseries
        exact hone.nil _ hb
      rw [skipBlank_append_of_ne_nil hne]
      exact ih hseries (by omega)

theorem Extends.readEnclosed (hone : Extends one) (hclose : close ≠ Ascii.comma) :
    Extends (readEnclosed close missing one) where
  append := by
    intro t r as h rest hrest
    rw [readEnclosed_eq_ok_iff] at h ⊢
    rcases h with ⟨hend, rfl⟩ | ⟨hhead, hseries⟩
    · exact .inl ⟨skipBlank_append_of_eq_cons hend rest, rfl⟩
    · have hne : skipBlank t ≠ [] := by
        intro hnil
        rw [hnil] at hseries
        obtain ⟨b, r'', -, -, hb, -⟩ := (readSeries_eq_ok_iff hclose).1 hseries
        exact hone.nil _ hb
      rw [skipBlank_append_of_ne_nil hne]
      refine .inr ⟨?_, hone.readSeries hclose hseries (by rw [List.length_append]; omega) hrest⟩
      rw [List.head?_append_of_ne_nil _ hne]
      exact hhead
  nil := by
    intro result h
    obtain ⟨as, r⟩ := result
    rcases readEnclosed_eq_ok_iff.1 h with ⟨hend, -⟩ | ⟨-, hseries⟩
    · cases hend
    · obtain ⟨b, r'', -, -, hb, -⟩ := (readSeries_eq_ok_iff hclose).1 hseries
      exact hone.nil _ hb

end Series

/-! ## §6. Values. -/

variable {item : ItemReader}

theorem Extends.readMember (hitem : Extends item) : Extends (readMember d item) where
  append := by
    intro t r m h rest hrest
    obtain ⟨s, r', r'', rfl, hname, hcolon, hv⟩ := readMember_eq_ok_iff.1 h
    exact readMember_eq_ok_iff.2 ⟨s ++ rest, r' ++ rest, r'' ++ rest, rfl,
      readString_extend hname rest, skipBlank_append_of_eq_cons hcolon rest,
      hitem.append_skipBlank hv hrest⟩
  nil := by
    intro result h
    cases h

theorem Extends.readArray (hitem : Extends item) : Extends (readArray item) := by
  rw [show Json.readArray item = _ from funext (readArray_eq_readEnclosed item)]
  exact hitem.readEnclosed (by decide)

theorem Extends.readObject (hitem : Extends item) : Extends (readObject d item) := by
  rw [show Json.readObject d item = _ from funext (readObject_eq_readEnclosed d item)]
  exact hitem.readMember.readEnclosed (by decide)

/-- Below the last level nothing is read, so nothing is read differently. -/
theorem extends_readTooDeep : Extends readTooDeep where
  append := by
    intro t r v h
    cases h
  nil := by
    intro result h
    cases h

/-- **A value is read as before when a delimiter follows its text**, whatever the level. -/
theorem extends_readValue (n : Nat) : Extends (readValue d n) := by
  refine readValue_induction extends_readTooDeep (fun n hinner => ⟨?_, fun result h => ?_⟩) n
  · intro t r v h rest hrest
    rw [readValue_eq_ok_iff] at h ⊢
    rcases h with ⟨s, x, rfl, hx, rfl⟩ | ⟨s, items, rfl, hn, hitems, rfl⟩ |
      ⟨s, members, rfl, hn, hmembers, rfl⟩ | hatom
    · exact .inl ⟨s ++ rest, x, rfl, readString_extend hx rest, rfl⟩
    · exact .inr (.inl ⟨s ++ rest, items, rfl, hn, hinner.readArray.append hitems hrest, rfl⟩)
    · exact .inr (.inr (.inl
        ⟨s ++ rest, members, rfl, hn, hinner.readObject.append hmembers hrest, rfl⟩))
    · exact .inr (.inr (.inr (extends_readAtom.append hatom hrest)))
  · cases n <;> cases h

end EditorWire.Json
