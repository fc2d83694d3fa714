/-
  EditorWire.Proofs.Json.Acceptance — payloads that are loaded are the JSON texts.

  The grammar knows no limits, the reader has two.  A text stays clear of them if
  its brackets do not nest too deep and its integer literals are not too long, and
  both can be said of any text, JSON or not:

      nesting    brackets and braces that are open at once, outside of strings
      integer    sign and digits where a value may begin, outside of strings,
                 that go on with no digit, no fraction and no exponent

  Where the reader looks for a value, as many brackets are open as it has levels
  behind it, and such a literal is all that it can find too long.

  Main results:
    * `IsDue.nesting`, `IsDue.isPlace` — what stands in front of where a value is due.
    * `not_overruns` — a text that stays clear of the limits does not run into one.
    * `Holder.load_ok_iff_isText` — such a text is loaded exactly if the grammar has it.
-/
import EditorWire.Holder.Basic
import EditorWire.Proofs.Json.Derivable
import EditorWire.Proofs.Json.TextNesting

namespace EditorWire.Json

variable {d : Dialect}

/-! ## §1. The levels behind a value that is due. -/

section Series

variable {α : Type} {one : Text → Except ReadFault (α × Text)}

theorem Behind.deepest_le (hone : GoesNoDeeper one) {t rest : Text} (h : Behind one t rest)
    (level : Nat) : deepest false level rest ≤ deepest false level t := by
  induction h with
  | here t => exact Nat.le_refl _
  | @next t r s rest a ha hcomma _ ih =>
    calc deepest false level rest
        ≤ deepest false level (skipBlank s) := ih
      _ = deepest false level (Ascii.comma :: s) := by rw [deepest_skipBlank, deepest_inert rfl]
      _ = deepest false level r := by rw [← hcomma, deepest_skipBlank]
      _ ≤ deepest false level t := hone t r a ha level

/-- What is enclosed lies one level deeper. -/
theorem IsEnclosed.deepest_le (hone : GoesNoDeeper one) {closing opening : Nat}
    (hopening : opening = Ascii.openBracket ∨ opening = Ascii.openBrace) {s rest : Text}
    (h : IsEnclosed closing one s rest) (level : Nat) :
    deepest false (level + 1) rest ≤ deepest false level (opening :: s) := by
  rw [deepest_open hopening, ← deepest_skipBlank (level + 1) s]
  exact h.behind.deepest_le hone (level + 1)

end Series

/-- The name of a member opens nothing. -/
theorem IsNamed.deepest_eq {m rest : Text} (h : IsNamed d m rest) (level : Nat) :
    deepest false level rest = deepest false level m := by
  obtain ⟨s, name, r, r', rfl, hname, hcolon, rfl⟩ := h
  calc deepest false level (skipBlank r')
      = deepest false level (Ascii.colon :: r') := by rw [deepest_skipBlank, deepest_inert rfl]
    _ = deepest false level r := by rw [← hcolon, deepest_skipBlank]
    _ = deepest false level (Ascii.quote :: s) := by rw [deepest_quote, deepest_of_readString hname]

/-- **Where a value is due, as many brackets are open as there are levels behind.** -/
theorem IsDue.nesting {t rest : Text} {n : Nat} (h : IsDue d t n rest) :
    ∃ level, level + n = d.maxNesting + 1 ∧ deepest false level rest ≤ textNesting t := by
  induction h with
  | whole => exact ⟨0, Nat.zero_add _, Nat.le_of_eq (deepest_skipBlank 0 t)⟩
  | @item n s rest _ _ henclosed ih =>
    obtain ⟨level, hlevel, hle⟩ := ih
    have hdeeper := henclosed.deepest_le (goesNoDeeper_innerReader n) (.inl rfl) level
    exact ⟨level + 1, by omega, Nat.le_trans hdeeper hle⟩
  | @member n s m rest _ _ henclosed hnamed ih =>
    obtain ⟨level, hlevel, hle⟩ := ih
    have hdeeper := henclosed.deepest_le (goesNoDeeper_innerReader n).readMember (.inr rfl) level
    refine ⟨level + 1, by omega, ?_⟩
    rw [hnamed.deepest_eq]
    exact Nat.le_trans hdeeper hle

namespace Grammar

/-! ## §2. Places outside of strings. -/

/-- Every string of the text is whole, so what comes behind the text stands in none. -/
inductive Closed : Text → Prop where
  | nil : Closed []
  | point {c : Nat} {s : Text} (hc : c ≠ 0x22) (hs : Closed s) : Closed (c :: s)
  | string {e s : Text} (he : StringText e) (hs : Closed s) : Closed (e ++ s)

/-- The code point stands in front of values: a blank, a comma, a colon or an opening bracket. -/
def Precedes (c : Nat) : Prop :=
  c = 0x20 ∨ c = 0x09 ∨ c = 0x0A ∨ c = 0x0D ∨ c = 0x2C ∨ c = 0x3A ∨ c = 0x5B

/-- A value may begin behind the text, which is outside of strings. -/
structure IsPlace (before : Text) : Prop where
  closed : Closed before
  precedes : ∀ s c, before = s ++ [c] → Precedes c

theorem Closed.append {s t : Text} (hs : Closed s) (ht : Closed t) : Closed (s ++ t) := by
  induction hs with
  | nil => exact ht
  | point hc _ ih => exact .point hc ih
  | string he _ ih =>
    rw [List.append_assoc]
    exact .string he ih

theorem closed_of_no_quote {s : Text} (h : ∀ c ∈ s, c ≠ 0x22) : Closed s := by
  induction s with
  | nil => exact .nil
  | cons c s ih =>
    obtain ⟨hc, hs⟩ := List.forall_mem_cons.1 h
    exact .point hc (ih hs)

theorem Blanks.ne_quote {w : Text} (h : Blanks w) : ∀ c ∈ w, c ≠ 0x22 := by
  intro c hc
  have hblank := h c hc
  omega

theorem Mark.closed {c : Nat} {a : Text} (h : Mark c a) (hc : c ≠ 0x22) : Closed a := by
  obtain ⟨w, w', hw, hw', rfl⟩ := h
  exact closed_of_no_quote (List.forall_mem_append.2
    ⟨hw.ne_quote, List.forall_mem_cons.2 ⟨hc, hw'.ne_quote⟩⟩)

theorem StringText.closed {s : Text} (h : StringText s) : Closed s := by
  have hstring := Closed.string h .nil
  rw [List.append_nil] at hstring
  exact hstring

theorem Digits.ne_quote {s : Text} (h : Digits s) : ∀ c ∈ s, c ≠ 0x22 := by
  intro c hc
  have hdigit := h.2 c hc
  unfold IsDigit at hdigit
  omega

theorem Number.closed {s : Text} (h : Number s) : Closed s := by
  obtain ⟨sign, whole, fraction, exponent, hsign, hwhole, hfraction, hexponent, rfl⟩ := h
  refine Closed.append ?_ (Closed.append ?_ (Closed.append ?_ ?_))
  · rcases hsign with rfl | rfl
    · exact .nil
    · exact closed_of_no_quote (by decide)
  · refine closed_of_no_quote (Digits.ne_quote ?_)
    cases hwhole with
    | zero => exact ⟨by decide, by simp [IsDigit]⟩
    | other hc hs => exact ⟨List.cons_ne_nil _ _, List.forall_mem_cons.2 ⟨⟨by omega, hc.2⟩, hs⟩⟩
  · rcases hfraction with rfl | ⟨s, hs, rfl⟩
    · exact .nil
    · exact .point (by decide) (closed_of_no_quote hs.ne_quote)
  · rcases hexponent with rfl | ⟨e, sign, s, he, hsign, hs, rfl⟩
    · exact .nil
    · refine .point (by omega) (Closed.append ?_ (closed_of_no_quote hs.ne_quote))
      rcases hsign with rfl | rfl | rfl <;> exact closed_of_no_quote (by decide)

/-- Every string of a derived text is whole. -/
theorem Derives.closed {x : Symbol} {s : Text} (h : Derives x s) : Closed s := by
  have hmarks : ∀ {opening closing : Nat} {x : Symbol}, Encloses opening x closing →
      opening ≠ 0x22 ∧ closing ≠ 0x22 := by
    intro opening closing x hx
    cases hx <;> decide
  induction h with
  | name hs =>
    have hnames : ∀ name ∈ names, ∀ c ∈ name, c ≠ 0x22 := by decide
    exact closed_of_no_quote (hnames _ hs)
  | number hs => exact hs.closed
  | string hs => exact hs.closed
  | empty hx ha hb => exact (ha.closed (hmarks hx).1).append (hb.closed (hmarks hx).2)
  | enclosed hx ha _ hb ih =>
    exact (ha.closed (hmarks hx).1).append (ih.append (hb.closed (hmarks hx).2))
  | member hname ha _ ih => exact hname.closed.append ((ha.closed (by decide)).append ih)
  | last _ ih => exact ih
  | more _ ha _ ih ih' => exact ih.append ((ha.closed (by decide)).append ih')

theorem Blanks.isPlace {w : Text} (h : Blanks w) : IsPlace w where
  closed := closed_of_no_quote h.ne_quote
  precedes := by
    rintro s c rfl
    have hblank := h c (List.mem_append_right s List.mem_cons_self)
    unfold Precedes
    omega

theorem IsPlace.append {a b : Text} (ha : Closed a) (hb : IsPlace b) (h : b = [] → IsPlace a) :
    IsPlace (a ++ b) where
  closed := ha.append hb.closed
  precedes := by
    intro s c heq
    rcases List.eq_nil_or_concat b with rfl | ⟨b', x, rfl⟩
    · rw [List.append_nil] at heq
      exact (h rfl).precedes s c heq
    · rw [List.concat_eq_append, ← List.append_assoc] at heq
      obtain ⟨-, hx⟩ := List.append_inj' heq rfl
      rw [← List.singleton_inj.1 hx]
      exact hb.precedes b' x List.concat_eq_append

/-- Behind a mark that stands in front of values one may begin, whatever comes before. -/
theorem Mark.isPlace_append {c : Nat} {a before : Text} (h : Mark c a) (hc : Precedes c)
    (hbefore : Closed before) : IsPlace (before ++ a) := by
  have hquote : c ≠ 0x22 := by
    unfold Precedes at hc
    omega
  obtain ⟨w, w', hw, hw', rfl⟩ := h
  have hmark : IsPlace (before ++ w ++ [c]) := by
    refine ⟨(hbefore.append hw.isPlace.closed).append (.point hquote .nil), ?_⟩
    intro s x heq
    obtain ⟨-, hx⟩ := List.append_inj' heq rfl
    rw [← List.singleton_inj.1 hx]
    exact hc
  have hplace := IsPlace.append hmark.closed hw'.isPlace fun _ => hmark
  simp only [List.append_assoc, List.singleton_append] at hplace
  exact hplace

/-! ## §3. Integer literals. -/

/-- More digits follow, or a fraction, or an exponent. -/
def GoesOn (t : Text) : Prop := ∃ s r, (Digits s ∨ Fraction s ∨ Exponent s) ∧ t = s ++ r

/-- The text has an integer literal of the digits. -/
def HasInteger (t digits : Text) : Prop :=
  ∃ before sign after, t = before ++ (sign ++ (digits ++ after)) ∧ IsPlace before ∧ Minus sign
    ∧ Whole digits ∧ ¬ GoesOn after

/-- No integer literal of the text has more digits. -/
def IntegersWithin (limit : Nat) (t : Text) : Prop :=
  ∀ digits, HasInteger t digits → digits.length ≤ limit

/-- In a short text no literal is long. -/
theorem integersWithin_of_length_le {limit : Nat} {t : Text} (h : t.length ≤ limit) :
    IntegersWithin limit t := by
  rintro digits ⟨before, sign, after, rfl, -⟩
  simp only [List.length_append] at h
  omega

theorem noDigit_of_readWhole? {t whole r : Text} (h : readWhole? t = some (whole, r))
    (hlong : 1 < whole.length) : NoDigit r := by
  cases t with
  | nil => cases h
  | cons c s =>
    by_cases hc : c = 0x30
    · rw [hc] at h
      obtain ⟨rfl, -⟩ := Prod.mk.inj (Option.some.inj h)
      exact absurd hlong (by decide)
    · rw [readWhole?_of_ne s hc] at h
      split at h
      · obtain ⟨-, rfl⟩ := Prod.mk.inj (Option.some.inj h)
        intro x r' heq
        have hhead := List.head?_dropWhile_not CodePoint.isDigit s
        rw [show s.dropWhile CodePoint.isDigit = x :: r' from heq] at hhead
        simpa using hhead
      · cases h

/-- A number that is read as an integer does not go on. -/
theorem not_goesOn_of_readNumeral? {t r : Text} {n : Numeral} (h : readNumeral? t = some (n, r))
    (hinteger : n.isInteger = true) (hlong : 1 < n.whole.length) :
    ∃ sign after, t = sign ++ (n.whole ++ after) ∧ Minus sign ∧ Whole n.whole ∧ ¬ GoesOn after := by
  obtain ⟨hfraction, hexponent⟩ := Bool.and_eq_true_iff.1 hinteger
  rw [List.isEmpty_iff] at hfraction
  rw [Option.isNone_iff_eq_none] at hexponent
  obtain ⟨r₁, r₂, r₃, hminus, hwhole, hf, he⟩ := readNumeral?_eq_some_iff.1 h
  rw [hfraction] at hf
  rw [hexponent] at he
  obtain ⟨sign, hsign, rfl⟩ := minus_of_readMinus hminus
  obtain ⟨hn, rfl⟩ := whole_of_readWhole? hwhole
  refine ⟨sign, r₂, rfl, hsign, hn, ?_⟩
  rintro ⟨s, u, hs | hs | hs, rfl⟩
  · -- all digits were read
    obtain ⟨hne, hall⟩ := hs
    obtain ⟨c, s, rfl⟩ := List.exists_cons_of_ne_nil hne
    have hc := noDigit_of_readWhole? hwhole hlong c _ rfl
    rw [isDigit_iff.2 (hall c List.mem_cons_self)] at hc
    cases hc
  · obtain ⟨c, digits, hread⟩ := hs.readFraction_append u
    rw [hread] at hf
    cases hf
  · -- what starts with the mark of an exponent has no fraction in front
    obtain ⟨n', hread⟩ := hs.readExponent_append u
    have hskip : readFraction (s ++ u) = ([], s ++ u) := by
      obtain ⟨e, sign', s, hmark, -, -, rfl⟩ := hs
      refine readFraction_of_head_ne fun c r' heq => ?_
      rw [← (List.cons.inj heq).1]
      rcases hmark with rfl | rfl <;> decide
    rw [hskip] at hf
    rw [← (Prod.mk.inj hf).2, hread] at he
    cases he

end Grammar

/-! ## §4. The place of a value that is due. -/

open Grammar

section Series

variable {α : Type} {x : Symbol} {one : Text → Except ReadFault (α × Text)}

/-- Things that were read stand in front, with a comma behind each. -/
theorem Behind.exists_append (hone : Sound x one) {t rest : Text} (h : Behind one t rest) :
    ∃ s, t = s ++ rest ∧ IsPlace s := by
  induction h with
  | here t => exact ⟨[], rfl, Blanks.isPlace (List.forall_mem_nil _)⟩
  | @next t r s rest a ha hcomma _ ih =>
    obtain ⟨e, he, rfl⟩ := hone t a r ha
    obtain ⟨comma, hmark, rfl⟩ := exists_mark hcomma
    obtain ⟨more, hmore, hplace⟩ := ih
    have hfirst : IsPlace (e ++ comma) :=
      hmark.isPlace_append (by unfold Precedes; decide) he.closed
    refine ⟨e ++ comma ++ more, ?_, IsPlace.append hfirst.closed hplace fun _ => hfirst⟩
    rw [hmore]
    simp only [List.append_assoc]

end Series

/-- A name and its colon stand in front. -/
theorem IsNamed.exists_append {m rest : Text} (h : IsNamed d m rest) :
    ∃ s, m = s ++ rest ∧ ∀ before, Closed before → IsPlace (before ++ s) := by
  obtain ⟨s, name, r, r', rfl, hname, hcolon, rfl⟩ := h
  obtain ⟨e, he, heq⟩ := string_of_readString hname
  obtain ⟨colon, hmark, rfl⟩ := exists_mark hcolon
  refine ⟨e ++ colon, ?_, fun before hbefore => ?_⟩
  · rw [heq, List.append_assoc]
  · rw [← List.append_assoc]
    exact hmark.isPlace_append (by unfold Precedes; decide) (hbefore.append he.closed)

/-- **Where a value is due one may begin.** -/
theorem IsDue.isPlace {t rest : Text} {n : Nat} (h : IsDue d t n rest) :
    ∃ before, t = before ++ rest ∧ IsPlace before := by
  induction h with
  | whole =>
    obtain ⟨w, hw, hskip⟩ := exists_blanks t
    exact ⟨w, hskip, hw.isPlace⟩
  | @item n s rest _ _ henclosed ih =>
    obtain ⟨before, hbefore, hplace⟩ := ih
    obtain ⟨w, hw, hskip⟩ := exists_blanks s
    obtain ⟨e, he, hitems⟩ := henclosed.behind.exists_append (sound_innerReader n)
    have hmark : Mark 0x5B (0x5B :: w) := ⟨[], w, List.forall_mem_nil _, hw, rfl⟩
    have hopen := hmark.isPlace_append (by unfold Precedes; decide) hplace.closed
    refine ⟨before ++ 0x5B :: w ++ e, ?_, IsPlace.append hopen.closed hitems fun _ => hopen⟩
    rw [hbefore, hskip, he]
    simp only [List.append_assoc, List.cons_append]
  | @member n s m rest _ _ henclosed hnamed ih =>
    obtain ⟨before, hbefore, hplace⟩ := ih
    obtain ⟨w, hw, hskip⟩ := exists_blanks s
    obtain ⟨e, he, hmembers⟩ := henclosed.behind.exists_append (sound_innerReader n).readMember
    obtain ⟨name, hname, hvalue⟩ := hnamed.exists_append
    have hmark : Mark 0x7B (0x7B :: w) := ⟨[], w, List.forall_mem_nil _, hw, rfl⟩
    have hclosed : Closed (before ++ 0x7B :: w ++ e) :=
      (hplace.closed.append (hmark.closed (by decide))).append hmembers.closed
    refine ⟨before ++ 0x7B :: w ++ e ++ name, ?_, hvalue _ hclosed⟩
    rw [hbefore, hskip, he, hname]
    simp only [List.append_assoc, List.cons_append]

/-! ## §5. Texts that stay clear of the limits. -/

/-- **A text that nests no deeper than is allowed and has no integer literal that is too long does
not run into a limit.** -/
theorem not_overruns {levels : Nat} {t : Text} {fault : ReadFault} (hnesting : textNesting t ≤ levels)
    (hintegers : IntegersWithin 4300 t) : ¬ Overruns (payloadDialect levels) t fault := by
  intro h
  have hmax : (payloadDialect levels).maxNesting = levels := rfl
  cases h with
  | @number n rest r numeral h hnumeral hlong =>
    obtain ⟨hinteger, hdigits⟩ := Bool.and_eq_true_iff.1 hlong
    have hlength : 4300 < numeral.whole.length := of_decide_eq_true hdigits
    obtain ⟨before, rfl, hplace⟩ := h.isPlace
    obtain ⟨sign, after, rfl, hsign, hwhole, hends⟩ :=
      not_goesOn_of_readNumeral? hnumeral hinteger (by omega)
    have hwithin := hintegers numeral.whole ⟨before, sign, after, rfl, hplace, hsign, hwhole, hends⟩
    omega
  | @opening n rest h hbegins hn =>
    obtain ⟨level, hlevel, hle⟩ := h.nesting
    obtain ⟨-, rfl⟩ := Dialect.not_opens_iff.1 hn
    -- the mark that begins it is open besides those in front
    obtain ⟨s, hs⟩ : ∃ s, deepest false level rest = deepest false (level + 1) s := by
      obtain ⟨s, rfl | rfl⟩ := hbegins
      · exact ⟨s, deepest_open (.inl rfl) level s⟩
      · exact ⟨s, deepest_open (.inr rfl) level s⟩
    have hdeep := le_deepest false (level + 1) s
    omega
  | nesting h => exact absurd rfl h.ne_zero

/-- No text of the grammar starts with a byte order mark. -/
theorem Grammar.IsText.head_ne {t : Text} (h : IsText t) : t.head? ≠ some byteOrderMark := by
  obtain ⟨w, s, w', hw, hs, -, rfl⟩ := h
  intro hmark
  obtain ⟨r, hr⟩ := List.head?_eq_some_iff.1 hmark
  obtain ⟨c, r', heq, hc⟩ := hs.starts w'
  rw [← skipBlank_append hw, hr, skipBlank_cons r (by decide)] at heq
  have hascii := (beginsValue_iff.1 hc).2.1
  rw [← (List.cons.inj heq).1] at hascii
  exact absurd hascii (by decide)

end EditorWire.Json

namespace EditorWire.Holder

open Json (textNesting Payload.Overruns)
open Json.Grammar (IsText IntegersWithin)

/-- What is no JSON is a decoding fault, unless it runs into a limit. -/
theorem malformed_of_load_error {payload : Payload} {fault : Json.LoadFault}
    (h : Json.load payload = .error fault)
    (hclear : ¬ ∃ f, Payload.Overruns Json.defaultLevels payload f) :
    ∃ m, load payload = .error (.decode (.malformed m)) := by
  cases fault with
  | malformed m =>
    refine ⟨m, ?_⟩
    unfold load
    rw [h]
    rfl
  | longInteger digits => exact absurd ⟨_, Json.load_eq_longInteger_iff.1 h⟩ hclear
  | tooDeep => exact absurd ⟨_, Json.load_eq_tooDeep_iff.1 h⟩ hclear

/-- **Exactly the texts of the grammar are loaded**, among those whose brackets nest at most 500
deep and whose integer literals have at most 4300 digits; every other one is a decoding fault. -/
theorem load_ok_iff_isText {t : Text} (hnesting : textNesting t ≤ 500)
    (hintegers : IntegersWithin 4300 t) :
    ((∃ v, load (.text t) = .ok v) ↔ IsText t)
      ∧ (¬ IsText t → ∃ m, load (.text t) = .error (.decode (.malformed m))) := by
  have hlevels : textNesting t ≤ Json.defaultLevels := Nat.le_trans hnesting (by decide)
  have hclear : ∀ fault, ¬ Json.Overruns Json.payloadDialect t fault :=
    fun fault => Json.not_overruns hlevels hintegers
  have htext : (∃ v, Json.load (.text t) = .ok v) ↔ IsText t := by
    constructor
    · rintro ⟨v, hload⟩
      exact Json.Grammar.isText_of_read (Json.load_text_eq_ok_iff.1 hload).2
    · intro ht
      rcases Json.Grammar.read_of_isText (d := Json.payloadDialect) rfl ht with
        ⟨v, hread⟩ | ⟨fault, hread, hlimit⟩
      · exact ⟨v, Json.load_text_eq_ok_iff.2 ⟨ht.head_ne, hread⟩⟩
      · exact absurd ((Json.read_error_iff hlimit).1 hread) (hclear fault)
  refine ⟨?_, fun hnot => ?_⟩
  · rw [← htext]
    exact exists_congr fun v => Result.mapError_eq_ok_iff
  · obtain ⟨fault, hload⟩ := Result.exists_error_iff.2 fun h => hnot (htext.1 h)
    refine malformed_of_load_error hload ?_
    rintro ⟨f, t', ht', hover⟩
    obtain ⟨-, rfl⟩ := Json.decode_text_eq_ok_iff.1 ht'
    exact hclear f hover

/-- A text with blanks, escapes and values of several kinds. -/
def variedText : Text :=
  " [\x7b\"\\u00e9[\\\"\" :\t-12.50E+3,\"k\":[NaN]\x7d,\r\n-Infinity ]"

/-- The same but for a zero in front of the digits. -/
def zeroedText : Text :=
  " [\x7b\"\\u00e9[\\\"\" :\t-012.50E+3,\"k\":[NaN]\x7d,\r\n-Infinity ]"

/-- One zero decides between a text of the grammar and a decoding fault. -/
theorem load_ok_iff_isText_zeroed :
    textNesting variedText ≤ 500 ∧ IntegersWithin 4300 variedText ∧ IsText variedText
      ∧ textNesting zeroedText ≤ 500 ∧ IntegersWithin 4300 zeroedText ∧ ¬ IsText zeroedText
      ∧ ∃ m, load (.text zeroedText) = .error (.decode (.malformed m)) := by
  have hnesting : textNesting variedText ≤ 500 := by cbv
  have hnesting' : textNesting zeroedText ≤ 500 := by cbv
  have hintegers : IntegersWithin 4300 variedText :=
    Json.Grammar.integersWithin_of_length_le (by cbv)
  have hintegers' : IntegersWithin 4300 zeroedText :=
    Json.Grammar.integersWithin_of_length_le (by cbv)
  have hload : (load (.text variedText)).toBool = true := by decide +kernel
  have hload' : (load (.text zeroedText)).toBool = false := by decide +kernel
  have h := load_ok_iff_isText hnesting hintegers
  have h' := load_ok_iff_isText hnesting' hintegers'
  have hnot : ¬ IsText zeroedText := by
    intro ht
    obtain ⟨v, hv⟩ := h'.1.2 ht
    rw [hv] at hload'
    cases hload'
  have htext : IsText variedText := by
    refine h.1.1 ?_
    cases hv : load (.text variedText) with
    | ok v => exact ⟨v, rfl⟩
    | error failure =>
      rw [hv] at hload
      cases hload
  exact ⟨hnesting, hintegers, htext, hnesting', hintegers', hnot, h'.2 hnot⟩

end EditorWire.Holder
