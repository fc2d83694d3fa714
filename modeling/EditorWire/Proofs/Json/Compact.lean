/-
  EditorWire.Proofs.Json.Compact — the compact text of a value, and the value again.

  A text is compact if no control character stands in it and everything that stands
  in no string is a visible character of ASCII.  Compact texts in a row are compact,
  so a value is printed compactly if its parts are:

      print v   =   marks and strings, one behind another

  What is printed is loaded as the value it was printed from: strings escape by one
  code point or by four digits, numbers end at the next mark, and 500 levels are
  fewer than are read.

  Main results:
    * `isCompact_print` — the text of a value is compact.
    * `load_print_lossless` — and it is loaded as the value.
-/
import EditorWire.Proofs.Json.TextNesting

namespace EditorWire.Json

/-! ## §1. What stands outside strings. -/

/-- The code points of a text that stand in no string; its quotes are of a string.  In a string
what follows a backslash is no quote. -/
def outside : (inString : Bool) → Text → Text
  | _, [] => []
  | true, c :: r =>
      if c = Ascii.quote then outside false r
      else if c = Ascii.backslash then
        match r with
        | [] => []
        | _ :: r' => outside true r'
      else outside true r
  | false, c :: r =>
      if c = Ascii.quote then outside true r
      else c :: outside false r

example : outside false "[\"a \\\" b\", 1]" = Text.ofString "[, 1]" := by cbv

theorem outside_quote (r : Text) : outside false (Ascii.quote :: r) = outside true r := by
  rw [outside, if_pos rfl]

theorem outside_inString {c : Nat} (hquote : c ≠ Ascii.quote) (hbackslash : c ≠ Ascii.backslash)
    (r : Text) : outside true (c :: r) = outside true r := by
  rw [outside.eq_def]
  simp only
  rw [if_neg hquote, if_neg hbackslash]

theorem outside_digit {c : Nat} (h : CodePoint.isHexDigit c = true) (r : Text) :
    outside true (c :: r) = outside true r :=
  outside_inString (ne_of_isHexDigit h).1 (ne_of_isHexDigit h).2 r

theorem outside_escape (c : Nat) (r : Text) :
    outside true (Ascii.backslash :: c :: r) = outside true r := by
  rw [outside, if_neg (by decide), if_pos rfl]

/-- A string ends where its pieces end. -/
theorem HasPieces.outside_eq {t r : Text} {pieces : List Piece} (h : HasPieces t pieces r) :
    outside true t = outside false r := by
  induction h with
  | quote r =>
    rw [outside.eq_def]
    simp only [if_true]
  | plain hquote hbackslash _ _ ih => rw [outside_inString hquote hbackslash, ih]
  | short _ _ ih => rw [outside_escape, ih]
  | numeric hn _ ih =>
    obtain ⟨h₁, h₂, h₃, h₄⟩ := isHexDigit_of_hexQuad? hn
    rw [outside_escape, outside_digit h₁, outside_digit h₂, outside_digit h₃, outside_digit h₄, ih]

/-! ## §2. Compact texts. -/

/-- A visible character of ASCII that begins no string. -/
def isMark (c : Nat) : Bool := decide (0x20 < c) && decide (c < 0x7F) && c != Ascii.quote

theorem isMark_iff {c : Nat} : isMark c = true ↔ 0x20 < c ∧ c < 0x7F ∧ c ≠ Ascii.quote := by
  simp [isMark, and_assoc]

/-- No control character stands in the text, and it is made of marks and strings, whatever
follows. -/
structure IsCompact (t : Text) : Prop where
  noControl : ∀ c ∈ t, 0x20 ≤ c
  marks : ∀ rest, ∃ front, outside false (t ++ rest) = front ++ outside false rest
    ∧ ∀ c ∈ front, isMark c = true

/-- Marks are compact. -/
theorem isCompact_of_marks {t : Text} (h : ∀ c ∈ t, isMark c = true) : IsCompact t where
  noControl := fun c hc => (isMark_iff.1 (h c hc)).1.le
  marks := by
    intro rest
    refine ⟨t, ?_, h⟩
    induction t with
    | nil => rfl
    | cons c t ih =>
      rw [List.forall_mem_cons] at h
      rw [List.cons_append, outside, if_neg (isMark_iff.1 h.1).2.2, ih h.2, List.cons_append]

theorem isCompact_nil : IsCompact [] :=
  isCompact_of_marks (List.forall_mem_nil _)

/-- Compact texts in a row are compact. -/
theorem IsCompact.append {s t : Text} (hs : IsCompact s) (ht : IsCompact t) :
    IsCompact (s ++ t) where
  noControl := List.forall_mem_append.2 ⟨hs.noControl, ht.noControl⟩
  marks := by
    intro rest
    obtain ⟨front, hfront, hmarks⟩ := hs.marks (t ++ rest)
    obtain ⟨front', hfront', hmarks'⟩ := ht.marks rest
    refine ⟨front ++ front', ?_, List.forall_mem_append.2 ⟨hmarks, hmarks'⟩⟩
    rw [List.append_assoc, hfront, hfront', List.append_assoc]

/-- A mark in front is compact. -/
theorem IsCompact.cons {c : Nat} {t : Text} (hc : isMark c = true) (ht : IsCompact t) :
    IsCompact (c :: t) :=
  (isCompact_of_marks (List.forall_mem_singleton.2 hc)).append ht

/-- Compact texts with a comma between them are compact. -/
theorem isCompact_joinWith {ts : List Text} (h : ∀ t ∈ ts, IsCompact t) :
    IsCompact (Text.joinWith [Ascii.comma] ts) := by
  induction ts with
  | nil => exact isCompact_nil
  | cons t ts ih =>
    rw [List.forall_mem_cons] at h
    cases ts with
    | nil => exact h.1
    | cons t' ts =>
      show IsCompact (t ++ [Ascii.comma] ++ Text.joinWith [Ascii.comma] (t' :: ts))
      rw [List.append_assoc]
      exact h.1.append (.cons rfl (ih h.2))

/-! ## §3. Values. -/

/-- Between its quotes a string has its pieces, so no control character is left. -/
theorem isCompact_printString (t : Text) : IsCompact (printString t) where
  noControl := by
    obtain ⟨s, hs, hle⟩ := (hasPieces_print t []).exists_append
    rw [List.append_nil] at hs
    rw [printString, hs]
    exact List.forall_mem_cons.2 ⟨by decide, hle⟩
  marks := by
    intro rest
    refine ⟨[], ?_, List.forall_mem_nil _⟩
    show outside false (Ascii.quote :: (t.flatMap escapePoint ++ [Ascii.quote] ++ rest)) = _
    rw [outside_quote, List.append_assoc]
    exact (hasPieces_print t rest).outside_eq

theorem isMark_of_isDigit {c : Nat} (h : CodePoint.isDigit c = true) : isMark c = true := by
  have hbetween := Decimal.isDigit_between h
  rw [isMark_iff]
  show _ ∧ _ ∧ c ≠ 0x22
  omega

theorem isCompact_of_allDigits {t : Text} (h : Decimal.AllDigits t) : IsCompact t :=
  isCompact_of_marks fun c hc => isMark_of_isDigit (h c hc)

/-- A written number is made of digits and the marks of its parts. -/
theorem Written.IsProper.isCompact {w : Written} (h : w.IsProper) : IsCompact w.text := by
  have hfraction : IsCompact (fractionText w.fraction) := by
    unfold fractionText
    split
    · exact isCompact_nil
    · exact .cons rfl (isCompact_of_allDigits h.fraction_digits)
  have hexponent : IsCompact (exponentText w.exponent) := by
    cases hw : w.exponent with
    | none => exact isCompact_nil
    | some exponent =>
      obtain ⟨negative, digits⟩ := exponent
      refine .cons rfl (.cons ?_ (isCompact_of_allDigits (h.exponent_digits _ _ hw).2))
      cases negative <;> rfl
  have hunsigned := ((isCompact_of_allDigits h.whole_digits).append hfraction).append hexponent
  unfold Written.text FloatStyle.signed
  split
  · exact .cons rfl hunsigned
  · exact hunsigned

theorem isCompact_write {x : Binary64} (hx : x.IsCanonical) : IsCompact (floatStyle.write x) := by
  cases x with
  | nan => exact isCompact_of_marks (by decide)
  | infinity negative =>
    cases negative
    · exact isCompact_of_marks (by decide)
    · exact isCompact_of_marks (by decide)
  | finite negative m q =>
    obtain ⟨w, hproper, htext, -⟩ := exists_written_value floatStyle hx
    rw [← htext]
    exact hproper.isCompact

/-- **The text of a value is compact.** -/
theorem isCompact_print {v : Json} (hv : Everywhere IsHeld v) : IsCompact (print v) := by
  induction v using Json.induction with
  | null => exact isCompact_of_marks (by decide)
  | bool b =>
    cases b
    · exact isCompact_of_marks (by decide)
    · exact isCompact_of_marks (by decide)
  | int i =>
    rw [print, ← Written.text_ofInt]
    exact (Written.isProper_ofInt i).isCompact
  | float x => exact isCompact_write hv.here
  | string t => exact isCompact_printString t
  | array items ih =>
    rw [everywhere_array_iff] at hv
    rw [print, printItems_eq_map]
    refine .cons rfl ((isCompact_joinWith ?_).append (.cons rfl isCompact_nil))
    rw [List.forall_mem_map]
    exact fun v hmem => ih v hmem (hv.2 v hmem)
  | object members ih =>
    rw [everywhere_object_iff] at hv
    rw [print, printMembers_eq_map]
    refine .cons rfl ((isCompact_joinWith ?_).append (.cons rfl isCompact_nil))
    rw [List.forall_mem_map]
    intro m hmem
    exact (isCompact_printString m.1).append (.cons rfl (ih m hmem (hv.2 m hmem)))

/-! ## §4. The value again. -/

/-- **The compact text loses nothing**: it is loaded as the value it was printed from, no control
character stands in it, and nothing but visible ASCII characters stands outside its strings. -/
theorem load_print_lossless {v : Json} (hheld : Everywhere IsHeld v)
    (hshort : Everywhere IsShort v) (hdepth : v.depth ≤ 500) :
    load (.text (print v)) = .ok v
      ∧ (∀ c ∈ print v, 0x20 ≤ c)
      ∧ ∀ c ∈ outside false (print v), 0x20 < c ∧ c < 0x7F := by
  have hcompact := isCompact_print hheld
  refine ⟨?_, hcompact.noControl, ?_⟩
  · have hshallow : v.depth ≤ defaultLevels := Nat.le_trans hdepth (by decide)
    exact (load_print hheld).2 ⟨⟨hshort, hshallow⟩, rfl⟩
  · obtain ⟨front, hfront, hmarks⟩ := hcompact.marks []
    have hall : outside false (print v) = front := by
      rw [List.append_nil] at hfront
      rw [hfront]
      exact List.append_nil front
    rw [hall]
    intro c hc
    have hmark := isMark_iff.1 (hmarks c hc)
    exact ⟨hmark.1, hmark.2.1⟩

/-- The halves of a surrogate pair side by side, which stay two code points, control characters, a
number of each kind, and members that are not in the order of their names. -/
def halvesApart : Json :=
  .object [("z", .array [.string [0xD83D, 0xDE00], .string [0x0A, 0x01, 0x7F, 0x2028]]),
    ("a", .array [.int (-1), .float (Binary64.ofDecimal false 1 0), .array [], .null])]

theorem load_print_lossless_halvesApart :
    load (.text (print halvesApart)) = .ok halvesApart ∧ ∀ c ∈ print halvesApart, 0x20 ≤ c := by
  have h := load_print_lossless (show Everywhere IsHeld halvesApart by decide +kernel)
    (show Everywhere IsShort halvesApart by decide +kernel) (by decide)
  exact ⟨h.1, h.2.1⟩

end EditorWire.Json
