/-
  EditorWire.Proofs.Json.Joined — texts put side by side in an array.

  JSON texts with commas between them and brackets around them are the text of
  the array of their values, whatever blanks each of them has around it:

      load e₁ = v₁, …, load eₙ = vₙ   →   load "[e₁,…,eₙ]" = [v₁, …, vₙ]

  Inside the brackets there is one level less, which a text that is nested far
  less deep than is allowed does not notice.

  Main result:
    * `load_arrayText` — the array of texts is loaded as the array of their values.
-/
import EditorWire.Proofs.Json.Extension
import EditorWire.Proofs.Json.TextNesting

namespace EditorWire.Json

/-- Texts with commas between them and brackets around them. -/
def arrayText (texts : List Text) : Text :=
  Ascii.openBracket :: (Text.joinWith [Ascii.comma] texts ++ [Ascii.closeBracket])

/-! ## §1. Series of texts. -/

section Series

variable {α : Type} {close : Nat} {missing : Reason} {one : Text → Except ReadFault (α × Text)}

/-- The text is one thing with blanks around it. -/
def IsTextOf (one : Text → Except ReadFault (α × Text)) (e : Text) (a : α) : Prop :=
  ∃ r, one (skipBlank e) = .ok (a, r) ∧ skipBlank r = []

/-- No delimiter is blank. -/
theorem Delimited.skipBlank_eq {rest : Text} (h : Delimited rest) : skipBlank rest = rest := by
  cases rest with
  | nil => rfl
  | cons c r =>
    rcases h c r rfl with rfl | rfl | rfl <;> rfl

theorem IsTextOf.skipBlank_ne_nil {e : Text} {a : α} (h : IsTextOf one e a) (hone : Extends one) :
    skipBlank e ≠ [] := by
  obtain ⟨r, hread, -⟩ := h
  intro hnil
  rw [hnil] at hread
  exact hone.nil _ hread

/-- In front of a delimiter the thing is read, and then come blanks and the delimiter. -/
theorem IsTextOf.append {e : Text} {a : α} (h : IsTextOf one e a) (hone : Extends one) {rest : Text}
    (hrest : Delimited rest) :
    ∃ r, one (skipBlank (e ++ rest)) = .ok (a, r) ∧ skipBlank r = rest := by
  obtain ⟨r, hread, hblank⟩ := h
  refine ⟨r ++ rest, hone.append_skipBlank hread hrest, ?_⟩
  rw [skipBlank_append_of_eq_nil hblank, hrest.skipBlank_eq]

/-- Texts side by side are read one after another, if there are rounds enough. -/
theorem readSeries_joinWith (hone : Extends one) (hclose : Closes close) {e : Text}
    {texts : List Text} {a : α} {as : List α} (ha : IsTextOf one e a)
    (has : List.Forall₂ (IsTextOf one) texts as) {rounds : Nat} (hrounds : texts.length < rounds)
    (rest : Text) :
    readSeries close missing one rounds
        (skipBlank (Text.joinWith [Ascii.comma] (e :: texts) ++ close :: rest))
      = .ok (a :: as, rest) := by
  obtain ⟨k, rfl⟩ : ∃ k, rounds = k + 1 := ⟨rounds - 1, by omega⟩
  induction has generalizing e a k with
  | nil =>
    obtain ⟨r, hread, hend⟩ := ha.append hone (hclose.delimited rest)
    exact (readSeries_eq_ok_iff hclose.ne_comma).2 ⟨a, r, k, rfl, hread, .inl ⟨hend, rfl⟩⟩
  | @cons e' a' texts as ha' _ ih =>
    obtain ⟨r, hread, hcomma⟩ := ha.append hone (delimited_comma
      (Text.joinWith [Ascii.comma] (e' :: texts) ++ close :: rest))
    rw [List.length_cons] at hrounds
    obtain ⟨j, rfl⟩ : ∃ j, k = j + 1 := ⟨k - 1, by omega⟩
    rw [joinWith_comma_append]
    exact (readSeries_eq_ok_iff hclose.ne_comma).2
      ⟨a, r, j + 1, rfl, hread, .inr ⟨_, a' :: as, hcomma, ih ha' j (by omega), rfl⟩⟩

/-- Behind the first of several texts there are no fewer code points than other texts. -/
theorem exists_joinWith_eq (e : Text) (texts : List Text) :
    ∃ tail, Text.joinWith [Ascii.comma] (e :: texts) = e ++ tail
      ∧ texts.length ≤ tail.length := by
  cases texts with
  | nil => exact ⟨[], (List.append_nil e).symm, Nat.le_refl 0⟩
  | cons e' texts =>
    have hjoin := joinWith_comma_append e e' texts []
    rw [List.append_nil, List.append_nil] at hjoin
    exact ⟨_, hjoin, length_le_length_joinWith (e' :: texts)⟩

/-- So they are behind an opening mark, where the first does not look like the end. -/
theorem readEnclosed_joinWith (hone : Extends one) (hclose : Closes close)
    (hstart : ∀ s result, one (close :: s) ≠ .ok result) {texts : List Text} {as : List α}
    (h : List.Forall₂ (IsTextOf one) texts as) (rest : Text) :
    readEnclosed close missing one (Text.joinWith [Ascii.comma] texts ++ close :: rest)
      = .ok (as, rest) := by
  rw [readEnclosed_eq_ok_iff]
  cases h with
  | nil => exact .inl ⟨hclose.skipBlank_eq rest, rfl⟩
  | @cons e a texts as ha has =>
    -- the reader allows as many rounds as there are code points behind the first blanks
    have hrounds : texts.length < (skipBlank
        (Text.joinWith [Ascii.comma] (e :: texts) ++ close :: rest)).length + 1 := by
      obtain ⟨tail, hjoin, htail⟩ := exists_joinWith_eq e texts
      rw [hjoin, List.append_assoc, skipBlank_append_of_ne_nil (ha.skipBlank_ne_nil hone)]
      simp only [List.length_append]
      omega
    have hseries : readSeries close missing one _ _ = .ok (a :: as, rest) :=
      readSeries_joinWith hone hclose ha has hrounds rest
    refine .inr ⟨fun hhead => ?_, hseries⟩
    obtain ⟨s, hs⟩ := List.head?_eq_some_iff.1 hhead
    rw [hs] at hseries
    obtain ⟨a', r', k, -, hread, -⟩ := (readSeries_eq_ok_iff hclose.ne_comma).1 hseries
    exact hstart s _ hread

end Series

/-! ## §2. The array. -/

variable {levels : Nat}

/-- A text that is loaded is one value with blanks around it, with any number of levels that its
brackets do not go beyond. -/
theorem isTextOf_of_load {e : Text} {v : Json} (h : load (.text e) levels = .ok v) {n : Nat}
    (hn : n ≤ levels) (hnesting : textNesting e ≤ n) :
    IsTextOf (readValue (payloadDialect levels) n) e v := by
  obtain ⟨r, hread, hblank⟩ := read_eq_ok_iff.1 (load_text_eq_ok_iff.1 h).2
  have hdeepest : deepest false 0 (skipBlank e) ≤ 0 + n := by
    rw [deepest_skipBlank, Nat.zero_add]
    exact hnesting
  refine ⟨r, ?_, hblank⟩
  rw [readValue_eq_of_nesting hdeepest hn]
  exact hread

/-- **Texts side by side in an array are loaded as the array of their values**, if a level is left
for the array besides theirs. -/
theorem load_arrayText {texts : List Text} {values : List Json}
    (h : List.Forall₂ (fun e v => load (.text e) levels = .ok v) texts values)
    (hlevels : 0 < levels) (hnesting : ∀ e ∈ texts, textNesting e < levels) :
    load (.text (arrayText texts)) levels = .ok (.array values) := by
  obtain ⟨n, rfl⟩ : ∃ n, levels = n + 1 := ⟨levels - 1, by omega⟩
  have htexts : List.Forall₂ (IsTextOf (readValue (payloadDialect (n + 1)) n)) texts values := by
    refine List.Forall₂.imp ?_ ((List.forall₂_and_left texts values).2 ⟨hnesting, h⟩)
    intro e v hev
    exact isTextOf_of_load hev.2 (Nat.le_succ n) (Nat.le_of_lt_succ hev.1)
  have harray : readArray (readValue (payloadDialect (n + 1)) n)
      (Text.joinWith [Ascii.comma] texts ++ [Ascii.closeBracket]) = .ok (values, []) := by
    rw [readArray_eq_readEnclosed]
    refine readEnclosed_joinWith (extends_readValue n) (.inl rfl) (fun s result h => ?_) htexts []
    cases n <;> cases h
  have hmark : (arrayText texts).head? ≠ some byteOrderMark := by
    rw [arrayText, List.head?_cons]
    decide
  refine load_text_eq_ok_iff.2 ⟨hmark, read_eq_ok_iff.2 ⟨[], ?_, rfl⟩⟩
  show readValue (payloadDialect (n + 1)) (n + 1) (arrayText texts) = _
  rw [arrayText, readValue_array (Dialect.opens_succ _ n)]
  show (readArray (readValue (payloadDialect (n + 1)) n) _).map _ = _
  rw [harray]
  rfl

end EditorWire.Json
