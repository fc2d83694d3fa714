/-
  EditorWire.Proofs.Json.Grammar — the grammar of JSON texts.

  The rules are those of RFC 8259 with the names NaN, Infinity and -Infinity beside
  its three.  They are written with the code points themselves and without any part
  of the reader:

      JSON-text  =  ws value ws
      value      =  name / number / string / array / object
      array      =  ws [ ws   value  *( ws , ws  value )    ws ] ws     or nothing inside
      object     =  ws { ws   member *( ws , ws  member )   ws } ws     or nothing inside
      member     =  string  ws : ws  value

  What a reader takes from the front of a text when it succeeds is derived by these
  rules, part by part, and so is a text that it reads to the end.

  Main results:
    * `sound_readValue` — what is taken for a value is one of the grammar.
    * `isText_of_read` — a text that is read is a text of the grammar.
-/
import EditorWire.Proofs.Json.Numeral
import EditorWire.Proofs.Json.Reading
import EditorWire.Proofs.Json.Strings

namespace EditorWire.Json.Grammar

/-! ## §1. Blanks, numbers and strings. -/

/-- ws = *( space / tab / line feed / carriage return ) -/
def Blanks (t : Text) : Prop := ∀ c ∈ t, c = 0x20 ∨ c = 0x09 ∨ c = 0x0A ∨ c = 0x0D

/-- DIGIT = 0-9 -/
def IsDigit (c : Nat) : Prop := 0x30 ≤ c ∧ c ≤ 0x39

/-- HEXDIG = DIGIT / A-F / a-f -/
def IsHexDigit (c : Nat) : Prop :=
  IsDigit c ∨ (0x41 ≤ c ∧ c ≤ 0x46) ∨ (0x61 ≤ c ∧ c ≤ 0x66)

/-- 1*DIGIT -/
def Digits (t : Text) : Prop := t ≠ [] ∧ ∀ c ∈ t, IsDigit c

/-- [ minus ] -/
def Minus (t : Text) : Prop := t = [] ∨ t = [0x2D]

/-- int = zero / ( digit1-9 *DIGIT ) -/
inductive Whole : Text → Prop where
  | zero : Whole [0x30]
  | other {c : Nat} {s : Text} (hc : 0x31 ≤ c ∧ c ≤ 0x39) (hs : ∀ x ∈ s, IsDigit x) :
      Whole (c :: s)

/-- frac = decimal-point 1*DIGIT -/
def Fraction (t : Text) : Prop := ∃ s, Digits s ∧ t = 0x2E :: s

/-- exp = e [ minus / plus ] 1*DIGIT -/
def Exponent (t : Text) : Prop :=
  ∃ e sign s, (e = 0x65 ∨ e = 0x45) ∧ (sign = [] ∨ sign = [0x2D] ∨ sign = [0x2B]) ∧ Digits s
    ∧ t = e :: (sign ++ s)

/-- number = [ minus ] int [ frac ] [ exp ] -/
def Number (t : Text) : Prop :=
  ∃ sign whole fraction exponent, Minus sign ∧ Whole whole ∧ (fraction = [] ∨ Fraction fraction)
    ∧ (exponent = [] ∨ Exponent exponent) ∧ t = sign ++ (whole ++ (fraction ++ exponent))

/-- What an escape of one code point has behind its backslash. -/
def shortEscapes : List Nat := [0x22, 0x5C, 0x2F, 0x62, 0x66, 0x6E, 0x72, 0x74]

/-- *char: code points from U+0020 on but the quote and the backslash, and escapes. -/
inductive Chars : Text → Prop where
  | nil : Chars []
  | unescaped {c : Nat} {s : Text} (hcontrol : 0x20 ≤ c) (hquote : c ≠ 0x22)
      (hbackslash : c ≠ 0x5C) (hs : Chars s) : Chars (c :: s)
  | short {e : Nat} {s : Text} (he : e ∈ shortEscapes) (hs : Chars s) : Chars (0x5C :: e :: s)
  | numeric {x₁ x₂ x₃ x₄ : Nat} {s : Text} (h₁ : IsHexDigit x₁) (h₂ : IsHexDigit x₂)
      (h₃ : IsHexDigit x₃) (h₄ : IsHexDigit x₄) (hs : Chars s) :
      Chars (0x5C :: 0x75 :: x₁ :: x₂ :: x₃ :: x₄ :: s)

/-- string = quotation-mark *char quotation-mark -/
def StringText (t : Text) : Prop := ∃ s, Chars s ∧ t = 0x22 :: (s ++ [0x22])

/-! ## §2. Values and texts. -/

/-- The names of values: those of the RFC, and three for numbers that have no digits. -/
def names : List Text := ["null", "true", "false", "NaN", "Infinity", "-Infinity"]

/-- A structural character: the mark with blanks around it. -/
def Mark (c : Nat) (t : Text) : Prop := ∃ w w', Blanks w ∧ Blanks w' ∧ t = w ++ c :: w'

/-- What texts are derived from. -/
inductive Symbol where
  | value
  | member
  /-- One of them or more with commas in between. -/
  | series (one : Symbol)

/-- An array has values between brackets, an object members between braces. -/
inductive Encloses : (opening : Nat) → Symbol → (closing : Nat) → Prop where
  | array : Encloses 0x5B .value 0x5D
  | object : Encloses 0x7B .member 0x7D

/-- The text is derived from the symbol. -/
inductive Derives : Symbol → Text → Prop where
  | name {s : Text} (hs : s ∈ names) : Derives .value s
  | number {s : Text} (hs : Number s) : Derives .value s
  | string {s : Text} (hs : StringText s) : Derives .value s
  /-- An array or object that holds nothing. -/
  | empty {opening closing : Nat} {x : Symbol} {a b : Text} (hx : Encloses opening x closing)
      (ha : Mark opening a) (hb : Mark closing b) : Derives .value (a ++ b)
  | enclosed {opening closing : Nat} {x : Symbol} {a s b : Text} (hx : Encloses opening x closing)
      (ha : Mark opening a) (hs : Derives (.series x) s) (hb : Mark closing b) :
      Derives .value (a ++ (s ++ b))
  | member {name a s : Text} (hname : StringText name) (ha : Mark 0x3A a)
      (hs : Derives .value s) : Derives .member (name ++ (a ++ s))
  | last {x : Symbol} {s : Text} (hs : Derives x s) : Derives (.series x) s
  | more {x : Symbol} {s a r : Text} (hs : Derives x s) (ha : Mark 0x2C a)
      (hr : Derives (.series x) r) : Derives (.series x) (s ++ (a ++ r))

/-- JSON-text = ws value ws -/
def IsText (t : Text) : Prop :=
  ∃ w s w', Blanks w ∧ Derives .value s ∧ Blanks w' ∧ t = w ++ (s ++ w')

/-! ## §3. The classes of the reader. -/

theorem isBlank_iff {c : Nat} :
    isBlank c = true ↔ c = 0x20 ∨ c = 0x09 ∨ c = 0x0A ∨ c = 0x0D := by
  simp only [isBlank, Bool.or_eq_true, beq_iff_eq, or_assoc]

theorem isDigit_iff {c : Nat} : CodePoint.isDigit c = true ↔ IsDigit c := by
  simp only [CodePoint.isDigit, IsDigit, Bool.and_eq_true, decide_eq_true_eq]

theorem isHexDigit_iff {c : Nat} : CodePoint.isHexDigit c = true ↔ IsHexDigit c :=
  CodePoint.isHexDigit_iff

theorem allDigits_iff {t : Text} : Decimal.AllDigits t ↔ ∀ c ∈ t, IsDigit c :=
  forall₂_congr fun _ _ => isDigit_iff

theorem mem_names_iff {s : Text} : s ∈ names ↔ ∃ v, (s, v) ∈ namedValues := by
  have hnames : names = namedValues.map Prod.fst := rfl
  rw [hnames, List.mem_map]
  constructor
  · rintro ⟨⟨name, v⟩, hentry, rfl⟩
    exact ⟨v, hentry⟩
  · rintro ⟨v, hentry⟩
    exact ⟨(s, v), hentry, rfl⟩

theorem mem_shortEscapes_iff {e : Nat} : e ∈ shortEscapes ↔ ∃ n, shortEscape? e = some n := by
  constructor
  · intro he
    have hall : ∀ x ∈ shortEscapes, (shortEscape? x).isSome = true := by decide
    exact Option.isSome_iff_exists.1 (hall e he)
  · rintro ⟨n, hn⟩
    simp only [shortEscapes, List.mem_cons, List.not_mem_nil, or_false]
    unfold shortEscape? at hn
    -- the reader asks for the same code points in another order
    split at hn
    · next hself => rcases hself with rfl | rfl | rfl <;> decide
    split at hn
    · omega
    split at hn
    · omega
    split at hn
    · omega
    split at hn
    · omega
    split at hn
    · omega
    · cases hn

/-! ## §4. What the reader takes for blanks, numbers and strings. -/

theorem exists_blanks (t : Text) : ∃ w, Blanks w ∧ t = w ++ skipBlank t := by
  refine ⟨t.takeWhile isBlank, fun c hc => ?_, List.takeWhile_append_dropWhile.symm⟩
  exact isBlank_iff.1 (List.all_eq_true.1 List.all_takeWhile c hc)

/-- A mark behind blanks and the blanks behind it. -/
theorem exists_mark {c : Nat} {t r : Text} (h : skipBlank t = c :: r) :
    ∃ a, Mark c a ∧ t = a ++ skipBlank r := by
  obtain ⟨w, hw, hskip⟩ := exists_blanks t
  obtain ⟨w', hw', hr⟩ := exists_blanks r
  refine ⟨w ++ c :: w', ⟨w, w', hw, hw', rfl⟩, ?_⟩
  rw [List.append_assoc, List.cons_append, ← hr, ← h]
  exact hskip

/-- The same without the blanks behind it. -/
theorem exists_closing {c : Nat} {t r : Text} (h : skipBlank t = c :: r) :
    ∃ a, Mark c a ∧ t = a ++ r := by
  obtain ⟨w, hw, hskip⟩ := exists_blanks t
  refine ⟨w ++ [c], ⟨w, [], hw, List.forall_mem_nil _, rfl⟩, ?_⟩
  rw [List.append_assoc, List.singleton_append, ← h]
  exact hskip

theorem digits_of_readDigits {t digits r : Text} (h : readDigits t = (digits, r)) :
    t = digits ++ r ∧ ∀ c ∈ digits, IsDigit c := by
  obtain ⟨rfl, rfl⟩ := Prod.mk.inj h
  refine ⟨List.takeWhile_append_dropWhile.symm, fun c hc => ?_⟩
  exact isDigit_iff.1 (List.all_eq_true.1 List.all_takeWhile c hc)

theorem minus_of_readMinus {t r : Text} {negative : Bool} (h : readMinus t = (negative, r)) :
    ∃ s, Minus s ∧ t = s ++ r := by
  unfold readMinus at h
  split at h
  · obtain ⟨-, rfl⟩ := Prod.mk.inj h
    exact ⟨[0x2D], .inr rfl, rfl⟩
  · obtain ⟨-, rfl⟩ := Prod.mk.inj h
    exact ⟨[], .inl rfl, rfl⟩

theorem whole_of_readWhole? {t whole r : Text} (h : readWhole? t = some (whole, r)) :
    Whole whole ∧ t = whole ++ r := by
  cases t with
  | nil => cases h
  | cons c s =>
    by_cases hc : c = 0x30
    · rw [hc] at h ⊢
      obtain ⟨rfl, rfl⟩ := Prod.mk.inj (Option.some.inj h)
      exact ⟨.zero, rfl⟩
    · rw [readWhole?_of_ne s hc] at h
      split at h
      · next hdigit =>
        obtain ⟨rfl, rfl⟩ := Prod.mk.inj (Option.some.inj h)
        obtain ⟨hs, hdigits⟩ := digits_of_readDigits (rfl : readDigits s = (_, _))
        have hrange := isDigit_iff.1 hdigit
        unfold IsDigit at hrange
        exact ⟨.other (by omega) hdigits, congrArg (c :: ·) hs⟩
      · cases h

theorem fraction_of_readFraction {t fraction r : Text} (h : readFraction t = (fraction, r)) :
    ∃ s, (s = [] ∨ Fraction s) ∧ t = s ++ r := by
  unfold readFraction at h
  split at h
  · next s =>
    split at h
    · obtain ⟨-, rfl⟩ := Prod.mk.inj h
      exact ⟨[], .inl rfl, rfl⟩
    · next digits rest hne hread =>
      obtain ⟨rfl, rfl⟩ := Prod.mk.inj h
      obtain ⟨hs, hdigits⟩ := digits_of_readDigits hread
      exact ⟨0x2E :: digits, .inr ⟨digits, ⟨hne, hdigits⟩, rfl⟩,
        congrArg (Ascii.dot :: ·) hs⟩
  · obtain ⟨-, rfl⟩ := Prod.mk.inj h
    exact ⟨[], .inl rfl, rfl⟩

theorem sign_of_readSign (t : Text) :
    ∃ s, (s = [] ∨ s = [0x2D] ∨ s = [0x2B]) ∧ t = s ++ (readSign t).2 := by
  unfold readSign
  split
  · exact ⟨[0x2D], .inr (.inl rfl), rfl⟩
  · exact ⟨[0x2B], .inr (.inr rfl), rfl⟩
  · exact ⟨[], .inl rfl, rfl⟩

theorem exponent_of_readExponent {t r : Text} {exponent : Option Int}
    (h : readExponent t = (exponent, r)) : ∃ s, (s = [] ∨ Exponent s) ∧ t = s ++ r := by
  unfold readExponent at h
  split at h
  · obtain ⟨-, rfl⟩ := Prod.mk.inj h
    exact ⟨[], .inl rfl, rfl⟩
  · next e s =>
    split at h
    · next he =>
      obtain ⟨sign, hsign, hs⟩ := sign_of_readSign s
      split at h
      · obtain ⟨-, rfl⟩ := Prod.mk.inj h
        exact ⟨[], .inl rfl, rfl⟩
      · next digits rest hne hread =>
        obtain ⟨-, rfl⟩ := Prod.mk.inj h
        obtain ⟨hdigits, hall⟩ := digits_of_readDigits hread
        refine ⟨e :: (sign ++ digits),
          .inr ⟨e, sign, digits, he, hsign, ⟨hne, hall⟩, rfl⟩, ?_⟩
        rw [List.cons_append, List.append_assoc, ← hdigits, ← hs]
    · obtain ⟨-, rfl⟩ := Prod.mk.inj h
      exact ⟨[], .inl rfl, rfl⟩

/-- What is taken for a number is one. -/
theorem number_of_readNumeral? {t r : Text} {n : Numeral} (h : readNumeral? t = some (n, r)) :
    ∃ s, Number s ∧ t = s ++ r := by
  obtain ⟨r₁, r₂, r₃, hminus, hwhole, hfraction, hexponent⟩ := readNumeral?_eq_some_iff.1 h
  obtain ⟨sign, hsign, rfl⟩ := minus_of_readMinus hminus
  obtain ⟨hn, rfl⟩ := whole_of_readWhole? hwhole
  obtain ⟨fraction, hf, rfl⟩ := fraction_of_readFraction hfraction
  obtain ⟨exponent, he, rfl⟩ := exponent_of_readExponent hexponent
  refine ⟨_, ⟨sign, n.whole, fraction, exponent, hsign, hn, hf, he, rfl⟩, ?_⟩
  simp only [List.append_assoc]

/-- What is taken for the pieces of a string are its characters and the quote behind them. -/
theorem chars_of_hasPieces {t r : Text} {pieces : List Piece} (h : HasPieces t pieces r) :
    ∃ s, Chars s ∧ t = s ++ 0x22 :: r := by
  induction h with
  | quote r => exact ⟨[], .nil, rfl⟩
  | @plain c _ _ _ hquote hbackslash hcontrol _ ih =>
    obtain ⟨s, hs, rfl⟩ := ih
    exact ⟨c :: s, .unescaped (Nat.le_of_not_lt hcontrol) hquote hbackslash hs, rfl⟩
  | @short e n _ _ _ he _ ih =>
    obtain ⟨s, hs, rfl⟩ := ih
    exact ⟨0x5C :: e :: s, .short (mem_shortEscapes_iff.2 ⟨n, he⟩) hs, rfl⟩
  | @numeric x₁ x₂ x₃ x₄ _ _ _ _ hn _ ih =>
    obtain ⟨s, hs, rfl⟩ := ih
    obtain ⟨h₁, h₂, h₃, h₄⟩ := isHexDigit_of_hexQuad? hn
    rw [isHexDigit_iff] at h₁ h₂ h₃ h₄
    exact ⟨0x5C :: 0x75 :: x₁ :: x₂ :: x₃ :: x₄ :: s, .numeric h₁ h₂ h₃ h₄ hs, rfl⟩

theorem string_of_readString {d : Dialect} {start s x r : Text}
    (h : readString d start s = .ok (x, r)) : ∃ e, StringText e ∧ Ascii.quote :: s = e ++ r := by
  obtain ⟨pieces, hpieces, -, -⟩ := readString_eq_ok_iff.1 h
  obtain ⟨body, hbody, rfl⟩ := chars_of_hasPieces hpieces
  refine ⟨0x22 :: (body ++ [0x22]), ⟨body, hbody, rfl⟩, ?_⟩
  rw [List.cons_append, List.append_assoc, List.singleton_append]

/-! ## §5. What the reader takes for values. -/

/-- What the reader takes is derived from the symbol. -/
def Sound {α : Type} (x : Symbol) (one : Text → Except ReadFault (α × Text)) : Prop :=
  ∀ t a r, one t = .ok (a, r) → ∃ s, Derives x s ∧ t = s ++ r

section Series

variable {α : Type} {x : Symbol} {opening closing : Nat} {missing : Reason}
  {one : Text → Except ReadFault (α × Text)}

/-- One after another, and the closing mark. -/
theorem Sound.readSeries (hone : Sound x one) (hclosing : closing ≠ Ascii.comma) {k : Nat}
    {t r : Text} {as : List α} (h : readSeries closing missing one k t = .ok (as, r)) :
    ∃ s b, Derives (.series x) s ∧ Mark closing b ∧ t = s ++ (b ++ r) := by
  induction k generalizing t as with
  | zero => cases h
  | succ k ih =>
    obtain ⟨a, r', k', hk, ha, hnext⟩ := (readSeries_eq_ok_iff hclosing).1 h
    obtain rfl := Nat.succ.inj hk
    obtain ⟨s, hs, rfl⟩ := hone t a r' ha
    rcases hnext with ⟨hend, -⟩ | ⟨s', bs, hcomma, hseries, -⟩
    · obtain ⟨b, hb, rfl⟩ := exists_closing hend
      exact ⟨s, b, .last hs, hb, rfl⟩
    · obtain ⟨comma, hmark, rfl⟩ := exists_mark hcomma
      obtain ⟨more, b, hmore, hb, heq⟩ := ih hseries
      refine ⟨s ++ (comma ++ more), b, .more hs hmark hmore, hb, ?_⟩
      rw [heq]
      simp only [List.append_assoc]

/-- An opening mark and what is enclosed by it make a value. -/
theorem Sound.readEnclosed (hone : Sound x one) (hx : Encloses opening x closing) {t r : Text}
    {as : List α} (h : readEnclosed closing missing one t = .ok (as, r)) :
    ∃ s, Derives .value s ∧ opening :: t = s ++ r := by
  have hclosing : closing ≠ Ascii.comma := by
    cases hx <;> decide
  have hopening : ∀ w, Blanks w → Mark opening (opening :: w) :=
    fun w hw => ⟨[], w, List.forall_mem_nil _, hw, rfl⟩
  rcases readEnclosed_eq_ok_iff.1 h with ⟨hend, -⟩ | ⟨-, hseries⟩
  · obtain ⟨b, hb, rfl⟩ := exists_closing hend
    exact ⟨[opening] ++ b, .empty hx (hopening [] (List.forall_mem_nil _)) hb, rfl⟩
  · obtain ⟨w, hw, hskip⟩ := exists_blanks t
    obtain ⟨s, b, hs, hb, heq⟩ := hone.readSeries hclosing hseries
    refine ⟨opening :: w ++ (s ++ b), .enclosed hx (hopening w hw) hs hb, ?_⟩
    calc opening :: t = opening :: (w ++ (s ++ (b ++ r))) := by rw [← heq, ← hskip]
      _ = opening :: w ++ (s ++ b) ++ r := by simp only [List.append_assoc, List.cons_append]

end Series

variable {d : Dialect} {item : ItemReader}

theorem Sound.readMember (hitem : Sound .value item) : Sound .member (readMember d item) := by
  intro t m r h
  obtain ⟨s, r', r'', rfl, hname, hcolon, hv⟩ := readMember_eq_ok_iff.1 h
  obtain ⟨name, hstring, heq⟩ := string_of_readString hname
  obtain ⟨colon, ha, rfl⟩ := exists_mark hcolon
  obtain ⟨e, he, hvalue⟩ := hitem _ m.2 r hv
  refine ⟨name ++ (colon ++ e), .member hstring ha he, ?_⟩
  rw [heq, hvalue]
  simp only [List.append_assoc]

theorem sound_readAtom : Sound .value (readAtom d) := by
  intro t v r h
  rcases readAtom_eq_ok_iff.1 h with hnamed | ⟨-, n, hnumeral, -⟩
  · obtain ⟨name, hentry, rfl⟩ := readNamed?_eq_some_iff.1 hnamed
    exact ⟨name, .name (mem_names_iff.2 ⟨v, hentry⟩), rfl⟩
  · obtain ⟨s, hs, rfl⟩ := number_of_readNumeral? hnumeral
    exact ⟨s, .number hs, rfl⟩

/-- **What is taken for a value is one of the grammar**, whatever the level. -/
theorem sound_readValue (n : Nat) : Sound .value (readValue d n) := by
  refine readValue_induction (fun t v r h => ?_) (fun n hinner t v r h => ?_) n
  · cases h
  · rcases readValue_eq_ok_iff.1 h with ⟨s, x, rfl, hx, -⟩ | ⟨s, items, rfl, -, hitems, -⟩ |
      ⟨s, members, rfl, -, hmembers, -⟩ | hatom
    · obtain ⟨e, he, heq⟩ := string_of_readString hx
      exact ⟨e, .string he, heq⟩
    · rw [readArray_eq_readEnclosed] at hitems
      exact hinner.readEnclosed .array hitems
    · rw [readObject_eq_readEnclosed] at hmembers
      exact hinner.readMember.readEnclosed .object hmembers
    · exact sound_readAtom t v r hatom

theorem sound_innerReader (n : Nat) : Sound .value (innerReader d n) := by
  cases n with
  | zero =>
    intro t v r h
    cases h
  | succ n => exact sound_readValue n

/-- **A text that is read is a text of the grammar.** -/
theorem isText_of_read {t : Text} {v : Json} (h : read d t = .ok v) : IsText t := by
  obtain ⟨r, hread, hrest⟩ := read_eq_ok_iff.1 h
  obtain ⟨w, hw, hskip⟩ := exists_blanks t
  obtain ⟨s, hs, heq⟩ := sound_readValue _ _ v r hread
  obtain ⟨w', hw', hr⟩ := exists_blanks r
  rw [hrest, List.append_nil] at hr
  exact ⟨w, s, w', hw, hs, hw', by rw [← hr, ← heq, ← hskip]⟩

end EditorWire.Json.Grammar
