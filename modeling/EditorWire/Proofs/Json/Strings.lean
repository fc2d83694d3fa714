/-
  EditorWire.Proofs.Json.Strings — strings that are written read back.

  Each code point is written by itself or by one escape, and read as one piece.
  Only code points below U+0020 are written by a number, and none of those is
  half of a surrogate pair, so no two pieces are joined when the text is put
  together again.

  Main results:
    * `readPieces_eq_ok_iff` — a string is read by rules, one for each kind of piece.
    * `readString_print` — the text of a written string is the text.
-/
import EditorWire.Json.Payload
import EditorWire.Json.Printer
import EditorWire.Proofs.Result

namespace EditorWire.Json

/-- The code point is written by its number. -/
def IsNumbered (c : Nat) : Prop :=
  c < 0x20 ∧ c ≠ 0x0A ∧ c ≠ 0x0D ∧ c ≠ 0x09 ∧ c ≠ 0x08 ∧ c ≠ 0x0C

instance (c : Nat) : Decidable (IsNumbered c) :=
  inferInstanceAs (Decidable (_ ∧ _))

/-- What a written code point is read as. -/
def pieceOf (c : Nat) : Piece := if IsNumbered c then .numeric c else .plain c

/-- The four digits of a number below U+0020. -/
theorem hexQuad?_lower {c : Nat} (h : c < 0x20) :
    ∃ x₁ x₂ x₃ x₄, Hexadecimal.lower 4 c = [x₁, x₂, x₃, x₄] ∧ hexQuad? x₁ x₂ x₃ x₄ = some c := by
  have hall : ∀ n < 0x20, hexQuad? (CodePoint.lowerHexDigit (n / 16 / 16 / 16 % 16))
      (CodePoint.lowerHexDigit (n / 16 / 16 % 16)) (CodePoint.lowerHexDigit (n / 16 % 16))
      (CodePoint.lowerHexDigit (n % 16)) = some n := by
    decide
  exact ⟨_, _, _, _, rfl, hall c h⟩

/-! ## §1. How a code point is written. -/

/-- A code point is written by an escape of one code point, by its number, or by itself. -/
theorem escapePoint_cases (c : Nat) :
    (¬ IsNumbered c ∧ ∃ e, escapePoint c = [Ascii.backslash, e] ∧ shortEscape? e = some c)
      ∨ (IsNumbered c ∧ escapePoint c = [Ascii.backslash, Ascii.u] ++ Hexadecimal.lower 4 c)
      ∨ (¬ IsNumbered c ∧ escapePoint c = [c] ∧ c ≠ Ascii.quote ∧ c ≠ Ascii.backslash
        ∧ ¬ c < 0x20) := by
  unfold escapePoint
  -- seven escapes of one code point, in the order of the writer
  split
  · next h => subst h; exact .inl ⟨by decide, Ascii.quote, rfl, rfl⟩
  split
  · next h => subst h; exact .inl ⟨by decide, Ascii.backslash, rfl, rfl⟩
  split
  · next h => subst h; exact .inl ⟨by decide, 0x6E, rfl, rfl⟩
  split
  · next h => subst h; exact .inl ⟨by decide, 0x72, rfl, rfl⟩
  split
  · next h => subst h; exact .inl ⟨by decide, 0x74, rfl, rfl⟩
  split
  · next h => subst h; exact .inl ⟨by decide, 0x62, rfl, rfl⟩
  split
  · next h => subst h; exact .inl ⟨by decide, 0x66, rfl, rfl⟩
  split
  · next hA hD h9 h8 hC h => exact .inr (.inl ⟨⟨h, hA, hD, h9, h8, hC⟩, rfl⟩)
  · next hquote hbackslash _ _ _ _ _ h =>
    exact .inr (.inr ⟨fun hn => h hn.1, rfl, hquote, hbackslash, h⟩)

/-! ## §2. How it is read. -/

theorem readPieces_short (start : Text) {e n : Nat} (r : Text) (he : e ≠ Ascii.u)
    (h : shortEscape? e = some n) :
    readPieces start (Ascii.backslash :: e :: r)
      = (readPieces start r).map fun (pieces, rest) => (.plain n :: pieces, rest) := by
  rw [readPieces.eq_def]
  simp only
  rw [if_neg (by decide), if_true, if_neg he, h]

theorem readPieces_numeric (start : Text) {x₁ x₂ x₃ x₄ n : Nat} (y : Nat) (r : Text)
    (h : hexQuad? x₁ x₂ x₃ x₄ = some n) :
    readPieces start (Ascii.backslash :: Ascii.u :: x₁ :: x₂ :: x₃ :: x₄ :: y :: r)
      = (readPieces start (y :: r)).map fun (pieces, rest) => (.numeric n :: pieces, rest) := by
  rw [readPieces.eq_def]
  simp only
  rw [if_neg (by decide), if_true, if_true, h]

theorem readPieces_plain (start : Text) {c : Nat} (r : Text) (hquote : c ≠ Ascii.quote)
    (hbackslash : c ≠ Ascii.backslash) (hcontrol : ¬ c < 0x20) :
    readPieces start (c :: r)
      = (readPieces start r).map fun (pieces, rest) => (.plain c :: pieces, rest) := by
  rw [readPieces.eq_def]
  simp only
  rw [if_neg hquote, if_neg hbackslash, if_neg hcontrol]

/-! ## §3. What a string is made of. -/

/-- `t` starts with the pieces of a string and the quote behind them, and `r` follows. -/
inductive HasPieces : Text → List Piece → Text → Prop where
  /-- The quote ends the string. -/
  | quote (r : Text) : HasPieces (Ascii.quote :: r) [] r
  /-- A code point by itself. -/
  | plain {c : Nat} {s r : Text} {pieces : List Piece} (hquote : c ≠ Ascii.quote)
      (hbackslash : c ≠ Ascii.backslash) (hcontrol : ¬ c < 0x20) (hs : HasPieces s pieces r) :
      HasPieces (c :: s) (.plain c :: pieces) r
  /-- An escape of one code point. -/
  | short {e n : Nat} {s r : Text} {pieces : List Piece} (he : shortEscape? e = some n)
      (hs : HasPieces s pieces r) :
      HasPieces (Ascii.backslash :: e :: s) (.plain n :: pieces) r
  /-- A numeric escape. -/
  | numeric {x₁ x₂ x₃ x₄ n : Nat} {s r : Text} {pieces : List Piece}
      (hn : hexQuad? x₁ x₂ x₃ x₄ = some n) (hs : HasPieces s pieces r) :
      HasPieces (Ascii.backslash :: Ascii.u :: x₁ :: x₂ :: x₃ :: x₄ :: s)
        (.numeric n :: pieces) r

theorem HasPieces.exists_cons {t r : Text} {pieces : List Piece} (h : HasPieces t pieces r) :
    ∃ c s, t = c :: s := by
  cases h <;> exact ⟨_, _, rfl⟩

theorem isHexDigit_of_hexQuad? {x₁ x₂ x₃ x₄ n : Nat} (h : hexQuad? x₁ x₂ x₃ x₄ = some n) :
    CodePoint.isHexDigit x₁ = true ∧ CodePoint.isHexDigit x₂ = true
      ∧ CodePoint.isHexDigit x₃ = true ∧ CodePoint.isHexDigit x₄ = true := by
  unfold hexQuad? at h
  split at h
  · next h₁ h₂ h₃ h₄ =>
    exact ⟨CodePoint.isHexDigit_of_hexValue? h₁, CodePoint.isHexDigit_of_hexValue? h₂,
      CodePoint.isHexDigit_of_hexValue? h₃, CodePoint.isHexDigit_of_hexValue? h₄⟩
  · cases h

/-- An escape of one code point is a visible character of ASCII. -/
theorem range_of_shortEscape? {e n : Nat} (h : shortEscape? e = some n) : 0x20 < e ∧ e < 0x7F := by
  unfold shortEscape? at h
  split at h
  · next hself =>
    rcases hself with rfl | rfl | rfl <;> decide
  split at h
  · omega
  split at h
  · omega
  split at h
  · omega
  split at h
  · omega
  split at h
  · omega
  · cases h

/-- No control character stands in a string as it is. -/
theorem HasPieces.exists_append {t r : Text} {pieces : List Piece} (h : HasPieces t pieces r) :
    ∃ s, t = s ++ r ∧ ∀ c ∈ s, 0x20 ≤ c := by
  induction h with
  | quote r => exact ⟨[Ascii.quote], rfl, by decide⟩
  | @plain c _ _ _ _ _ hcontrol _ ih =>
    obtain ⟨s, rfl, hs⟩ := ih
    exact ⟨c :: s, rfl, List.forall_mem_cons.2 ⟨Nat.le_of_not_lt hcontrol, hs⟩⟩
  | @short e _ _ _ _ he _ ih =>
    obtain ⟨s, rfl, hs⟩ := ih
    refine ⟨Ascii.backslash :: e :: s, rfl, ?_⟩
    have hrange := range_of_shortEscape? he
    simp only [List.forall_mem_cons]
    exact ⟨by decide, by omega, hs⟩
  | @numeric x₁ x₂ x₃ x₄ _ _ _ _ hn _ ih =>
    obtain ⟨s, rfl, hs⟩ := ih
    refine ⟨Ascii.backslash :: Ascii.u :: x₁ :: x₂ :: x₃ :: x₄ :: s, rfl, ?_⟩
    have hdigits := isHexDigit_of_hexQuad? hn
    simp only [CodePoint.isHexDigit_iff] at hdigits
    simp only [List.forall_mem_cons]
    exact ⟨by decide, by decide, by omega, by omega, by omega, by omega, hs⟩

/-- The mark of a numeric escape is no escape by itself. -/
theorem ne_u_of_shortEscape? {e n : Nat} (h : shortEscape? e = some n) : e ≠ Ascii.u := by
  intro heq
  rw [heq, show shortEscape? Ascii.u = none from rfl] at h
  cases h

/-- What is read of a string are pieces of it. -/
theorem hasPieces_of_readPieces {start t r : Text} {pieces : List Piece}
    (h : readPieces start t = .ok (pieces, r)) : HasPieces t pieces r := by
  induction t using readPieces.induct generalizing pieces with
  -- the text ends inside the string
  | case1 => cases h
  | case3 => cases h
  | case2 s =>
    rw [readPieces.eq_def] at h
    obtain ⟨rfl, rfl⟩ := Prod.mk.inj (Except.ok.inj h)
    exact .quote s
  | case4 x₁ x₂ x₃ x₄ y s n hn _ ih =>
    rw [readPieces_numeric start y s hn] at h
    obtain ⟨⟨ps, r'⟩, hs, heq⟩ := Result.map_eq_ok_iff.1 h
    obtain ⟨rfl, rfl⟩ := Prod.mk.inj heq
    exact .numeric hn (ih hs)
  -- four hexadecimal digits do not follow
  | case5 x₁ x₂ x₃ x₄ y s hn =>
    rw [readPieces.eq_def] at h
    simp only at h
    rw [if_neg (by decide), if_true, if_true, hn] at h
    cases h
  | case6 s =>
    rw [readPieces.eq_def] at h
    simp only at h
    rw [if_neg (by decide), if_true, if_true] at h
    cases h
  | case7 e s he n hn _ ih =>
    rw [readPieces_short start s he hn] at h
    obtain ⟨⟨ps, r'⟩, hs, heq⟩ := Result.map_eq_ok_iff.1 h
    obtain ⟨rfl, rfl⟩ := Prod.mk.inj heq
    exact .short hn (ih hs)
  -- no escape starts here, or a control character stands here as it is
  | case8 e s he hn =>
    rw [readPieces.eq_def] at h
    simp only at h
    rw [if_neg (by decide), if_true, if_neg he, hn] at h
    cases h
  | case9 c s hquote hbackslash hcontrol =>
    rw [readPieces.eq_def] at h
    simp only at h
    rw [if_neg hquote, if_neg hbackslash, if_pos hcontrol] at h
    cases h
  | case10 c s hquote hbackslash hcontrol ih =>
    rw [readPieces_plain start s hquote hbackslash hcontrol] at h
    obtain ⟨⟨ps, r'⟩, hs, heq⟩ := Result.map_eq_ok_iff.1 h
    obtain ⟨rfl, rfl⟩ := Prod.mk.inj heq
    exact .plain hquote hbackslash hcontrol (ih hs)

/-- Pieces are read, wherever the string is said to start. -/
theorem HasPieces.readPieces_eq {t r : Text} {pieces : List Piece} (h : HasPieces t pieces r)
    (start : Text) : readPieces start t = .ok (pieces, r) := by
  induction h with
  | quote r =>
    rw [readPieces.eq_def]
    rfl
  | plain hquote hbackslash hcontrol _ ih =>
    rw [readPieces_plain start _ hquote hbackslash hcontrol, ih]
    rfl
  | short he _ ih =>
    rw [readPieces_short start _ (ne_u_of_shortEscape? he) he, ih]
    rfl
  | numeric hn hs ih =>
    -- the reader wants a code point behind the digits, and the quote is there at least
    obtain ⟨y, s, rfl⟩ := hs.exists_cons
    rw [readPieces_numeric start y s hn, ih]
    rfl

/-- **What is read of a string are its pieces.** -/
theorem readPieces_eq_ok_iff {start t r : Text} {pieces : List Piece} :
    readPieces start t = .ok (pieces, r) ↔ HasPieces t pieces r :=
  ⟨hasPieces_of_readPieces, fun h => h.readPieces_eq start⟩

/-- The dialect lets the text of a string through. -/
def Dialect.Admits (d : Dialect) (t : Text) : Prop :=
  (!d.loneSurrogates && t.any fun c => decide (IsSurrogate c)) = false

/-- A string is read if its pieces are and the dialect lets their text through. -/
theorem readString_eq_ok_iff {d : Dialect} {start body t r : Text} :
    readString d start body = .ok (t, r)
      ↔ ∃ pieces, HasPieces body pieces r ∧ joinPieces pieces = t ∧ d.Admits t := by
  unfold readString
  rw [Result.bind_eq_ok_iff]
  constructor
  · rintro ⟨⟨pieces, r'⟩, hpieces, h⟩
    simp only at h
    split at h
    · cases h
    · next hadmits =>
      obtain ⟨rfl, rfl⟩ := Prod.mk.inj (Except.ok.inj h)
      exact ⟨pieces, readPieces_eq_ok_iff.1 hpieces, rfl, Bool.eq_false_iff.2 hadmits⟩
  · rintro ⟨pieces, hpieces, rfl, hadmits⟩
    refine ⟨(pieces, r), readPieces_eq_ok_iff.2 hpieces, ?_⟩
    show (if (!d.loneSurrogates && _) = true then _ else _) = _
    rw [if_neg (Bool.eq_false_iff.1 hadmits)]

/-- A written text is made of its pieces, up to the quote behind it. -/
theorem hasPieces_print (t rest : Text) :
    HasPieces (t.flatMap escapePoint ++ Ascii.quote :: rest) (t.map pieceOf) rest := by
  induction t with
  | nil => exact .quote rest
  | cons c t ih =>
    rw [List.flatMap_cons, List.append_assoc, List.map_cons]
    rcases escapePoint_cases c with ⟨hplain, e, heq, hshort⟩ | ⟨hnumbered, heq⟩ |
      ⟨hplain, heq, hquote, hbackslash, hcontrol⟩
    · rw [show pieceOf c = .plain c from if_neg hplain, heq]
      exact .short hshort ih
    · obtain ⟨x₁, x₂, x₃, x₄, hdigits, hquad⟩ := hexQuad?_lower hnumbered.1
      rw [show pieceOf c = .numeric c from if_pos hnumbered, heq, hdigits]
      exact .numeric hquad ih
    · rw [show pieceOf c = .plain c from if_neg hplain, heq]
      exact .plain hquote hbackslash hcontrol ih

/-! ## §4. The text of the pieces. -/

theorem joinPieces_numeric_cons {n : Nat} (pieces : List Piece) (h : isHighSurrogate n = false) :
    joinPieces (.numeric n :: pieces) = n :: joinPieces pieces := by
  rw [joinPieces.eq_def]
  split
  · next heq => cases heq
  · next heq => cases heq
  -- two numbers in a row are joined only behind the first half of a pair
  · next m r heq =>
    obtain ⟨hn, rfl⟩ := List.cons.inj heq
    rw [← Piece.numeric.inj hn, h]
    rfl
  · next heq =>
    obtain ⟨hn, rfl⟩ := List.cons.inj heq
    rw [← Piece.numeric.inj hn]

/-- No piece that is written is half of a pair. -/
theorem joinPieces_map_pieceOf (t : Text) : joinPieces (t.map pieceOf) = t := by
  induction t with
  | nil => rfl
  | cons c t ih =>
    rw [List.map_cons]
    by_cases h : IsNumbered c
    · rw [show pieceOf c = .numeric c from if_pos h]
      have hhigh : isHighSurrogate c = false := by
        have hlt := h.1
        unfold isHighSurrogate
        rw [Bool.and_eq_false_iff, decide_eq_false_iff_not]
        omega
      rw [joinPieces_numeric_cons _ hhigh, ih]
    · rw [show pieceOf c = .plain c from if_neg h, joinPieces, ih]

/-- **A written string is read as its text.** -/
theorem readString_print {d : Dialect} (hd : d.loneSurrogates = true) (start t rest : Text) :
    readString d start (t.flatMap escapePoint ++ Ascii.quote :: rest) = .ok (t, rest) := by
  refine readString_eq_ok_iff.2 ⟨_, hasPieces_print t rest, joinPieces_map_pieceOf t, ?_⟩
  unfold Dialect.Admits
  rw [hd]
  rfl

end EditorWire.Json
