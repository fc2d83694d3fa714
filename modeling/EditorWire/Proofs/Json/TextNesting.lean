/-
  EditorWire.Proofs.Json.TextNesting — how deep the brackets of a text nest.

  Every bracket and brace counts that does not stand in a string, whether the text
  is JSON or not:

      deepest level t   how many are open at once at most, if `level` are before `t`

  A reader that succeeds leaves a text that goes no deeper than the one it was
  given.  So on a text nested no deeper than the levels allowed the reader never
  comes to the last of them, and more levels make no difference, to what is read
  as well as to the fault that is found:

      deepest level t ≤ level + n,  n ≤ m   →   readValue d n t = readValue d m t

  Main results:
    * `goesNoDeeper_readValue` — what is left of a text goes no deeper than the text.
    * `readValue_eq_of_nesting` — levels that a text does not reach make no difference.
-/
import EditorWire.Proofs.Json.ReadBack

namespace EditorWire.Json

/-! ## §1. Counting. -/

/-- How many brackets and braces are open at once at most, `level` being open before the text.
In a string none counts, and there what follows a backslash is no quote. -/
def deepest : (inString : Bool) → (level : Nat) → Text → Nat
  | _, level, [] => level
  | true, level, c :: r =>
      if c = Ascii.quote then deepest false level r
      else if c = Ascii.backslash then
        match r with
        | [] => level
        | _ :: r' => deepest true level r'
      else deepest true level r
  | false, level, c :: r =>
      if c = Ascii.quote then deepest true level r
      else if c = Ascii.openBracket ∨ c = Ascii.openBrace then deepest false (level + 1) r
      else if c = Ascii.closeBracket ∨ c = Ascii.closeBrace then
        max level (deepest false (level - 1) r)
      else deepest false level r

/-- How deep the brackets and braces of a text nest. -/
def textNesting (t : Text) : Nat := deepest false 0 t

example : textNesting "[\x7b\"[[\\\"[\":[]\x7d] [" = 3 := by cbv

/-- What is open before a text counts in it. -/
theorem le_deepest (inString : Bool) (level : Nat) (t : Text) :
    level ≤ deepest inString level t := by
  fun_induction deepest inString level t <;> omega

theorem deepest_open {c : Nat} (hc : c = Ascii.openBracket ∨ c = Ascii.openBrace) (level : Nat)
    (r : Text) : deepest false level (c :: r) = deepest false (level + 1) r := by
  have hquote : c ≠ Ascii.quote := by
    rcases hc with rfl | rfl <;> decide
  rw [deepest, if_neg hquote, if_pos hc]

theorem deepest_close {c : Nat} (hc : c = Ascii.closeBracket ∨ c = Ascii.closeBrace)
    (level : Nat) (r : Text) :
    deepest false level (c :: r) = max level (deepest false (level - 1) r) := by
  have hquote : c ≠ Ascii.quote := by
    rcases hc with rfl | rfl <;> decide
  have hopen : ¬ (c = Ascii.openBracket ∨ c = Ascii.openBrace) := by
    rcases hc with rfl | rfl <;> decide
  rw [deepest, if_neg hquote, if_neg hopen, if_pos hc]

theorem deepest_quote (level : Nat) (r : Text) :
    deepest false level (Ascii.quote :: r) = deepest true level r := by
  rw [deepest, if_pos rfl]

/-- The code point begins no string, and opens and closes nothing. -/
def isInert (c : Nat) : Bool :=
  c != Ascii.quote && c != Ascii.openBracket && c != Ascii.openBrace && c != Ascii.closeBracket
    && c != Ascii.closeBrace

theorem deepest_inert {c : Nat} (hc : isInert c = true) (level : Nat) (r : Text) :
    deepest false level (c :: r) = deepest false level r := by
  simp only [isInert, Bool.and_eq_true, bne_iff_ne] at hc
  obtain ⟨⟨⟨⟨hquote, hbracket⟩, hbrace⟩, hbracket'⟩, hbrace'⟩ := hc
  rw [deepest, if_neg hquote, if_neg (by simp [hbracket, hbrace]),
    if_neg (by simp [hbracket', hbrace'])]

theorem deepest_append_inert {s : Text} (hs : ∀ c ∈ s, isInert c = true) (level : Nat) (r : Text) :
    deepest false level (s ++ r) = deepest false level r := by
  induction s with
  | nil => rfl
  | cons c s ih =>
    rw [List.cons_append, deepest_inert (hs c List.mem_cons_self)]
    exact ih fun x hx => hs x (List.mem_cons_of_mem c hx)

theorem deepest_dropWhile {p : Nat → Bool} (hp : ∀ c, p c = true → isInert c = true) (level : Nat)
    (t : Text) : deepest false level (t.dropWhile p) = deepest false level t := by
  conv_rhs => rw [← List.takeWhile_append_dropWhile (p := p) (l := t)]
  rw [deepest_append_inert]
  intro c hc
  exact hp c (List.all_eq_true.1 List.all_takeWhile c hc)

/-! ## §2. What opens nothing. -/

theorem deepest_skipBlank (level : Nat) (t : Text) :
    deepest false level (skipBlank t) = deepest false level t := by
  refine deepest_dropWhile (fun c hc => ?_) level t
  simp only [isBlank, Bool.or_eq_true, beq_iff_eq] at hc
  rcases hc with ((rfl | rfl) | rfl) | rfl <;> rfl

/-- A digit opens nothing. -/
theorem isInert_of_isDigit {c : Nat} (hc : CodePoint.isDigit c = true) : isInert c = true := by
  have hbetween := Decimal.isDigit_between hc
  simp only [isInert, Bool.and_eq_true, bne_iff_ne]
  refine ⟨⟨⟨⟨?_, ?_⟩, ?_⟩, ?_⟩, ?_⟩
  · show c ≠ 0x22; omega
  · show c ≠ 0x5B; omega
  · show c ≠ 0x7B; omega
  · show c ≠ 0x5D; omega
  · show c ≠ 0x7D; omega

theorem deepest_readDigits (level : Nat) (t : Text) :
    deepest false level (readDigits t).2 = deepest false level t :=
  deepest_dropWhile (fun _ => isInert_of_isDigit) level t

theorem deepest_readMinus (level : Nat) (t : Text) :
    deepest false level (readMinus t).2 = deepest false level t := by
  unfold readMinus
  split
  · next r => exact (deepest_inert rfl level r).symm
  · rfl

theorem deepest_readWhole? {t whole r : Text} (h : readWhole? t = some (whole, r)) (level : Nat) :
    deepest false level r = deepest false level t := by
  unfold readWhole? at h
  split at h
  · next s =>
    obtain ⟨-, rfl⟩ := Prod.mk.inj (Option.some.inj h)
    exact (deepest_inert rfl level s).symm
  · next c s =>
    split at h
    · next hc =>
      obtain ⟨-, rfl⟩ := Prod.mk.inj (Option.some.inj h)
      rw [deepest_readDigits, deepest_inert (isInert_of_isDigit hc)]
    · cases h
  · cases h

theorem deepest_readFraction (level : Nat) (t : Text) :
    deepest false level (readFraction t).2 = deepest false level t := by
  unfold readFraction
  split
  · next r =>
    have hdigits := deepest_readDigits level r
    split
    · rfl
    · next digits rest hread =>
      rw [hread] at hdigits
      rw [deepest_inert rfl, ← hdigits]
  · rfl

theorem deepest_readSign (level : Nat) (t : Text) :
    deepest false level (readSign t).2 = deepest false level t := by
  unfold readSign
  split
  · next r => exact (deepest_inert rfl level r).symm
  · next r => exact (deepest_inert rfl level r).symm
  · rfl

theorem deepest_readExponent (level : Nat) (t : Text) :
    deepest false level (readExponent t).2 = deepest false level t := by
  unfold readExponent
  split
  · rfl
  · next c r =>
    split
    · next hc =>
      have hdigits := deepest_readDigits level (readSign r).2
      have hmark : isInert c = true := by
        rcases hc with rfl | rfl <;> rfl
      split
      · rfl
      · next digits rest hread =>
        rw [hread] at hdigits
        rw [deepest_inert hmark, ← deepest_readSign level r, ← hdigits]
    · rfl

/-- An atom opens nothing. -/
theorem deepest_of_readAtom {d : Dialect} {t r : Text} {v : Json}
    (h : readAtom d t = .ok (v, r)) (level : Nat) :
    deepest false level r = deepest false level t := by
  rcases readAtom_eq_ok_iff.1 h with hnamed | ⟨-, n, hnumeral, -⟩
  · obtain ⟨name, hentry, rfl⟩ := readNamed?_eq_some_iff.1 hnamed
    have hinert : ∀ entry ∈ namedValues, ∀ c ∈ entry.1, isInert c = true := by decide
    exact (deepest_append_inert (hinert _ hentry) level r).symm
  · obtain ⟨r₁, r₂, r₃, hminus, hwhole, hfraction, hexponent⟩ :=
      readNumeral?_eq_some_iff.1 hnumeral
    -- part by part, from what is left back to the beginning
    calc deepest false level r
        = deepest false level (readExponent r₃).2 := by rw [hexponent]
      _ = deepest false level (readFraction r₂).2 := by rw [deepest_readExponent, hfraction]
      _ = deepest false level r₁ := by rw [deepest_readFraction, deepest_readWhole? hwhole]
      _ = deepest false level (readMinus t).2 := by rw [hminus]
      _ = deepest false level t := deepest_readMinus level t

/-! ## §3. Strings. -/

/-- A hexadecimal digit is neither the quote nor the backslash. -/
theorem ne_of_isHexDigit {c : Nat} (h : CodePoint.isHexDigit c = true) :
    c ≠ Ascii.quote ∧ c ≠ Ascii.backslash := by
  rw [CodePoint.isHexDigit_iff] at h
  show c ≠ 0x22 ∧ c ≠ 0x5C
  omega

theorem deepest_inString {c : Nat} (hquote : c ≠ Ascii.quote) (hbackslash : c ≠ Ascii.backslash)
    (level : Nat) (r : Text) : deepest true level (c :: r) = deepest true level r := by
  rw [deepest.eq_def]
  simp only
  rw [if_neg hquote, if_neg hbackslash]

theorem deepest_digit {c : Nat} (h : CodePoint.isHexDigit c = true) (level : Nat) (r : Text) :
    deepest true level (c :: r) = deepest true level r :=
  deepest_inString (ne_of_isHexDigit h).1 (ne_of_isHexDigit h).2 level r

theorem deepest_escape (level c : Nat) (r : Text) :
    deepest true level (Ascii.backslash :: c :: r) = deepest true level r := by
  rw [deepest, if_neg (by decide), if_pos rfl]

/-- A string ends where its counting ends. -/
theorem HasPieces.deepest_eq {t r : Text} {pieces : List Piece} (h : HasPieces t pieces r)
    (level : Nat) : deepest true level t = deepest false level r := by
  induction h with
  | quote r =>
    rw [deepest.eq_def]
    simp only [if_true]
  | plain hquote hbackslash _ _ ih => rw [deepest_inString hquote hbackslash, ih]
  | short _ _ ih => rw [deepest_escape, ih]
  | numeric hn _ ih =>
    obtain ⟨h₁, h₂, h₃, h₄⟩ := isHexDigit_of_hexQuad? hn
    rw [deepest_escape, deepest_digit h₁, deepest_digit h₂, deepest_digit h₃, deepest_digit h₄, ih]

theorem deepest_of_readString {d : Dialect} {start body t r : Text}
    (h : readString d start body = .ok (t, r)) (level : Nat) :
    deepest true level body = deepest false level r := by
  obtain ⟨pieces, hpieces, -, -⟩ := readString_eq_ok_iff.1 h
  exact hpieces.deepest_eq level

/-! ## §4. What is left goes no deeper. -/

/-- What the reader leaves goes no deeper than what it was given. -/
def GoesNoDeeper {α : Type} (one : Text → Except ReadFault (α × Text)) : Prop :=
  ∀ t r a, one t = .ok (a, r) → ∀ level, deepest false level r ≤ deepest false level t

section Series

variable {α : Type} {close : Nat} {missing : Reason} {one one' : Text → Except ReadFault (α × Text)}

/-- Behind the closing mark of a series there is one bracket less open. -/
theorem GoesNoDeeper.readSeries (hone : GoesNoDeeper one) (hclose : Closes close) {k : Nat}
    {t r : Text} {as : List α} (h : readSeries close missing one k t = .ok (as, r)) (level : Nat) :
    deepest false level r ≤ deepest false (level + 1) t := by
  induction k generalizing t as with
  | zero => cases h
  | succ k ih =>
    obtain ⟨a, r', k', hk, ha, hnext⟩ := (readSeries_eq_ok_iff hclose.ne_comma).1 h
    obtain rfl := Nat.succ.inj hk
    have hfirst := hone t r' a ha (level + 1)
    rw [← deepest_skipBlank (level + 1) r'] at hfirst
    rcases hnext with ⟨hend, -⟩ | ⟨s, bs, hcomma, hseries, -⟩
    · rw [hend, deepest_close hclose, Nat.add_sub_cancel] at hfirst
      omega
    · have hmore := ih hseries
      rw [hcomma, deepest_inert rfl] at hfirst
      rw [deepest_skipBlank] at hmore
      omega

theorem GoesNoDeeper.readEnclosed (hone : GoesNoDeeper one) (hclose : Closes close)
    {t r : Text} {as : List α} (h : readEnclosed close missing one t = .ok (as, r)) (level : Nat) :
    deepest false level r ≤ deepest false (level + 1) t := by
  rw [← deepest_skipBlank (level + 1) t]
  rcases readEnclosed_eq_ok_iff.1 h with ⟨hend, -⟩ | ⟨-, hseries⟩
  · rw [hend, deepest_close hclose, Nat.add_sub_cancel]
    exact Nat.le_max_right _ _
  · exact hone.readSeries hclose hseries level

/-! ## §5. Levels that are not reached. -/

/-- Readers that agree where a text goes no deeper than `bound` read the same series there. -/
theorem readSeries_congr (hone : GoesNoDeeper one) {level bound : Nat}
    (heq : ∀ t, deepest false level t ≤ bound → one t = one' t) {k : Nat} {t : Text}
    (ht : deepest false level t ≤ bound) :
    readSeries close missing one k t = readSeries close missing one' k t := by
  induction k generalizing t with
  | zero => rfl
  | succ k ih =>
    rw [readSeries, readSeries, ← heq t ht]
    cases ha : one t with
    | error fault => rfl
    | ok result =>
      obtain ⟨a, r⟩ := result
      have hr := Nat.le_trans (hone t r a ha level) ht
      rw [← deepest_skipBlank] at hr
      simp only [bind, Except.bind]
      cases hskip : skipBlank r with
      | nil => rfl
      | cons c s =>
        simp only
        split
        · rfl
        split
        · next hcomma =>
          -- the others are behind a comma, which opens nothing
          rw [hskip, hcomma, deepest_inert rfl, ← deepest_skipBlank] at hr
          rw [ih hr]
        · rfl

theorem readEnclosed_congr (hone : GoesNoDeeper one) {level bound : Nat}
    (heq : ∀ t, deepest false level t ≤ bound → one t = one' t) {t : Text}
    (ht : deepest false level t ≤ bound) :
    readEnclosed close missing one t = readEnclosed close missing one' t := by
  rw [← deepest_skipBlank] at ht
  unfold readEnclosed
  rw [readSeries_congr hone heq ht]

end Series

variable {d : Dialect} {item item' : ItemReader}

theorem GoesNoDeeper.readMember (hitem : GoesNoDeeper item) : GoesNoDeeper (readMember d item) := by
  intro t r m h level
  obtain ⟨s, r', r'', rfl, hname, hcolon, hv⟩ := readMember_eq_ok_iff.1 h
  calc deepest false level r
      ≤ deepest false level (skipBlank r'') := hitem _ r m.2 hv level
    _ = deepest false level (Ascii.colon :: r'') := by rw [deepest_skipBlank, deepest_inert rfl]
    _ = deepest false level r' := by rw [← hcolon, deepest_skipBlank]
    _ = deepest false level (Ascii.quote :: s) := by
      rw [deepest_quote, deepest_of_readString hname]

theorem GoesNoDeeper.readArray (hitem : GoesNoDeeper item) {t r : Text} {items : List Json}
    (h : readArray item t = .ok (items, r)) (level : Nat) :
    deepest false level r ≤ deepest false (level + 1) t := by
  rw [readArray_eq_readEnclosed] at h
  exact hitem.readEnclosed (.inl rfl) h level

theorem GoesNoDeeper.readObject (hitem : GoesNoDeeper item) {t r : Text} {members : Members}
    (h : readObject d item t = .ok (members, r)) (level : Nat) :
    deepest false level r ≤ deepest false (level + 1) t := by
  rw [readObject_eq_readEnclosed] at h
  exact hitem.readMember.readEnclosed (.inr rfl) h level

/-- **What is left of a text goes no deeper than the text.** -/
theorem goesNoDeeper_readValue (n : Nat) : GoesNoDeeper (readValue d n) := by
  refine readValue_induction (fun t r v h => ?_) (fun n hinner t r v h level => ?_) n
  · cases h
  · rcases readValue_eq_ok_iff.1 h with ⟨s, x, rfl, hx, -⟩ | ⟨s, items, rfl, -, hitems, -⟩ |
      ⟨s, members, rfl, -, hmembers, -⟩ | hatom
    · rw [deepest_quote, deepest_of_readString hx]
    · rw [deepest_open (.inl rfl)]
      exact hinner.readArray hitems level
    · rw [deepest_open (.inr rfl)]
      exact hinner.readObject hmembers level
    · exact Nat.le_of_eq (deepest_of_readAtom hatom level)

theorem goesNoDeeper_innerReader (n : Nat) : GoesNoDeeper (innerReader d n) := by
  cases n with
  | zero =>
    intro t r v h
    cases h
  | succ k => exact goesNoDeeper_readValue k

theorem readMember_congr {level bound : Nat}
    (heq : ∀ t, deepest false level t ≤ bound → item t = item' t) {t : Text}
    (ht : deepest false level t ≤ bound) : readMember d item t = readMember d item' t := by
  unfold readMember
  split
  · next s =>
    cases hname : readString d (Ascii.quote :: s) s with
    | error fault => rfl
    | ok result =>
      obtain ⟨name, r⟩ := result
      rw [deepest_quote, deepest_of_readString hname, ← deepest_skipBlank] at ht
      simp only [bind, Except.bind]
      split
      · next r' hcolon =>
        -- the value is behind the colon, which opens nothing
        rw [hcolon, deepest_inert rfl, ← deepest_skipBlank] at ht
        rw [heq _ ht]
      · rfl
  · rfl

theorem readArray_congr (hitem : GoesNoDeeper item) {level bound : Nat}
    (heq : ∀ t, deepest false level t ≤ bound → item t = item' t) {t : Text}
    (ht : deepest false level t ≤ bound) : readArray item t = readArray item' t := by
  rw [readArray_eq_readEnclosed, readArray_eq_readEnclosed]
  exact readEnclosed_congr hitem heq ht

theorem readObject_congr (hitem : GoesNoDeeper item) {level bound : Nat}
    (heq : ∀ t, deepest false level t ≤ bound → item t = item' t) {t : Text}
    (ht : deepest false level t ≤ bound) : readObject d item t = readObject d item' t := by
  rw [readObject_eq_readEnclosed, readObject_eq_readEnclosed]
  exact readEnclosed_congr hitem.readMember (fun _ => readMember_congr heq) ht

/-- **Levels that a text does not reach make no difference**, to its value or its fault. -/
theorem readValue_eq_of_nesting {n m level : Nat} {t : Text}
    (ht : deepest false level t ≤ level + n) (hm : n ≤ m) :
    readValue d n t = readValue d m t := by
  induction n using Nat.strongRecOn generalizing m level t with
  | _ n ih =>
    -- behind an opening mark one level more is open and one less is allowed
    have hinner : ∀ s, deepest false (level + 1) s ≤ level + n →
        innerReader d n s = innerReader d m s := by
      intro s hs
      have hlevel := le_deepest false (level + 1) s
      obtain ⟨k, rfl⟩ : ∃ k, n = k + 1 := ⟨n - 1, by omega⟩
      obtain ⟨j, rfl⟩ : ∃ j, m = j + 1 := ⟨m - 1, by omega⟩
      have hs' : deepest false (level + 1) s ≤ level + 1 + k := by omega
      exact ih k (Nat.lt_succ_self k) hs' (Nat.le_of_succ_le_succ hm)
    by_cases hquote : ∃ s, t = Ascii.quote :: s
    · obtain ⟨s, rfl⟩ := hquote
      rw [readValue_string, readValue_string]
    -- an opening mark within the bound has a level of its own, with either number of them
    have hopens : ∀ s, deepest false (level + 1) s ≤ level + n → d.Opens n ∧ d.Opens m := by
      intro s hs
      have hlevel := le_deepest false (level + 1) s
      exact ⟨fun _ => by omega, fun _ => by omega⟩
    by_cases hbracket : ∃ s, t = Ascii.openBracket :: s
    · obtain ⟨s, rfl⟩ := hbracket
      rw [deepest_open (.inl rfl)] at ht
      rw [readValue_array (hopens s ht).1, readValue_array (hopens s ht).2,
        readArray_congr (goesNoDeeper_innerReader n) hinner ht]
    by_cases hbrace : ∃ s, t = Ascii.openBrace :: s
    · obtain ⟨s, rfl⟩ := hbrace
      rw [deepest_open (.inr rfl)] at ht
      rw [readValue_object (hopens s ht).1, readValue_object (hopens s ht).2,
        readObject_congr (goesNoDeeper_innerReader n) hinner ht]
    · rw [readValue_atom n (fun s hs => hquote ⟨s, hs⟩) (fun s hs => hbracket ⟨s, hs⟩)
        (fun s hs => hbrace ⟨s, hs⟩), readValue_atom m (fun s hs => hquote ⟨s, hs⟩)
        (fun s hs => hbracket ⟨s, hs⟩) (fun s hs => hbrace ⟨s, hs⟩)]

end EditorWire.Json
