/-
  EditorWire.Proofs.Json.Derivable — what the grammar derives is read.

  The reader looks for the longest number and at no more than one code point
  otherwise, so it must not be led astray by what follows.  Behind a value the
  grammar has blanks and then a comma, a closing mark or the end, and none of these
  goes on with anything.  So each rule of the grammar gives one of the reader:

      one   (skipBlank (s ++ rest))                  gets behind  s
      series one (skipBlank (s ++ closing :: rest))  gets behind  s and the mark

  By a limit of the reader alone can it be kept from that.

  Main results:
    * `complete_of_derives` — what is derived from a symbol is read as such.
    * `read_of_isText` — a text of the grammar is read, or it runs into a limit.
-/
import EditorWire.Proofs.Json.Grammar
import EditorWire.Proofs.Json.Limits

namespace EditorWire.Json.Grammar

/-! ## §1. Where the reader gets to. -/

/-- The reader gets to `rest`, unless it runs into a limit before. -/
def LeadsTo {α : Type} (x : Except ReadFault (α × Text)) (rest : Text) : Prop :=
  (∃ a, x = .ok (a, rest)) ∨ ∃ fault, x = .error fault ∧ fault.IsLimit

theorem LeadsTo.map {α β : Type} {x : Except ReadFault (α × Text)} {rest : Text}
    (h : LeadsTo x rest) (f : α → β) : LeadsTo (x.map fun (a, r) => (f a, r)) rest := by
  rcases h with ⟨a, rfl⟩ | ⟨fault, rfl, hlimit⟩
  · exact .inl ⟨f a, rfl⟩
  · exact .inr ⟨fault, rfl, hlimit⟩

theorem LeadsTo.bind {α β : Type} {x : Except ReadFault (α × Text)} {r rest : Text}
    {f : α × Text → Except ReadFault (β × Text)} (h : LeadsTo x r)
    (hf : ∀ a, x = .ok (a, r) → LeadsTo (f (a, r)) rest) : LeadsTo (x >>= f) rest := by
  rcases h with ⟨a, rfl⟩ | ⟨fault, rfl, hlimit⟩
  · exact hf a rfl
  · exact .inr ⟨fault, rfl, hlimit⟩

/-! ## §2. Blanks and marks. -/

theorem skipBlank_append {w : Text} (hw : Blanks w) (t : Text) :
    skipBlank (w ++ t) = skipBlank t :=
  List.dropWhile_append_of_pos fun c hc => isBlank_iff.2 (hw c hc)

/-- Behind the blanks in front of it stands the mark, and behind the mark are blanks. -/
theorem Mark.skipBlank_eq {c : Nat} {a : Text} (h : Mark c a) (hc : isBlank c = false) (t : Text) :
    ∃ r, skipBlank (a ++ t) = c :: r ∧ skipBlank r = skipBlank t := by
  obtain ⟨w, w', hw, hw', rfl⟩ := h
  refine ⟨w' ++ t, ?_, skipBlank_append hw' t⟩
  rw [List.append_assoc, List.cons_append, skipBlank_append hw, skipBlank_cons _ hc]

/-- What begins with no blank is found behind blanks as it is. -/
theorem skipBlank_append_of_startsValue {s : Text} (h : StartsValue s) (t : Text) :
    skipBlank (s ++ t) = s ++ t :=
  (h.append t).skipBlank_eq

/-- A number does not go on in front of a blank, a comma, a closing mark or the end. -/
theorem ends_of_delimited {c : Nat} {r : Text} (h : Delimited (skipBlank (c :: r))) :
    CodePoint.isDigit c = false ∧ c ≠ Ascii.dot ∧ c ≠ 0x65 ∧ c ≠ 0x45 := by
  by_cases hblank : isBlank c = true
  · rcases isBlank_iff.1 hblank with rfl | rfl | rfl | rfl <;> decide
  · rw [skipBlank_cons r (Bool.eq_false_iff.2 hblank)] at h
    rcases h c r rfl with rfl | rfl | rfl <;> decide

/-! ## §3. Numbers. -/

theorem noDigit_of_delimited {rest : Text} (h : Delimited (skipBlank rest)) : NoDigit rest := by
  rintro c r rfl
  exact (ends_of_delimited h).1

theorem readMinus_append {sign : Text} (h : Minus sign) {c : Nat} (t : Text)
    (hc : CodePoint.isDigit c = true) : ∃ b, readMinus (sign ++ c :: t) = (b, c :: t) := by
  rcases h with rfl | rfl
  · exact ⟨false, readMinus_signed false t hc⟩
  · exact ⟨true, rfl⟩

theorem Whole.exists_cons {whole : Text} (h : Whole whole) :
    ∃ c s, whole = c :: s ∧ CodePoint.isDigit c = true := by
  cases h with
  | zero => exact ⟨0x30, [], rfl, rfl⟩
  | @other c s hc hs => exact ⟨c, s, rfl, isDigit_iff.2 ⟨by omega, hc.2⟩⟩

theorem Whole.readWhole?_append {whole t : Text} (h : Whole whole) (ht : NoDigit t) :
    readWhole? (whole ++ t) = some (whole, t) := by
  cases h with
  | zero => rfl
  | @other c s hc hs =>
    have hdigits : Decimal.AllDigits (c :: s) := by
      refine allDigits_iff.2 (List.forall_mem_cons.2 ⟨⟨by omega, hc.2⟩, hs⟩)
    exact Json.readWhole?_append hdigits (.inr ⟨c, s, rfl, by omega⟩) ht

/-- Digits are read together with those that follow. -/
theorem Digits.readDigits_append {s : Text} (h : Digits s) (t : Text) :
    ∃ c digits, readDigits (s ++ t) = (c :: digits, (readDigits t).2) := by
  obtain ⟨hne, hall⟩ := h
  obtain ⟨c, s, rfl⟩ := List.exists_cons_of_ne_nil hne
  have hdigits := allDigits_iff.2 hall
  unfold readDigits
  rw [List.takeWhile_append_of_pos hdigits, List.dropWhile_append_of_pos hdigits]
  exact ⟨c, s ++ t.takeWhile CodePoint.isDigit, rfl⟩

theorem readDigits_of_noDigit {t : Text} (h : NoDigit t) : (readDigits t).2 = t := by
  have hnone : Decimal.AllDigits [] := List.forall_mem_nil _
  exact congrArg Prod.snd (Json.readDigits_append hnone h)

/-- A fraction is read with the digits that follow; without one nothing is. -/
theorem Fraction.readFraction_append {s : Text} (h : Fraction s) (t : Text) :
    ∃ c digits, readFraction (s ++ t) = (c :: digits, (readDigits t).2) := by
  obtain ⟨s, hs, rfl⟩ := h
  obtain ⟨c, digits, hread⟩ := hs.readDigits_append t
  refine ⟨c, digits, ?_⟩
  show readFraction (Ascii.dot :: (s ++ t)) = _
  unfold readFraction
  simp only
  rw [hread]

/-- An exponent is read with the digits that follow. -/
theorem Exponent.readExponent_append {s : Text} (h : Exponent s) (t : Text) :
    ∃ n, readExponent (s ++ t) = (some n, (readDigits t).2) := by
  obtain ⟨e, sign, s, he, hsign, hs, rfl⟩ := h
  obtain ⟨c, digits, hread⟩ := hs.readDigits_append t
  have hread' : readDigits (readSign (sign ++ (s ++ t))).2 = (c :: digits, (readDigits t).2) := by
    rcases hsign with rfl | rfl | rfl
    · -- the first digit is no sign
      obtain ⟨hne, hall⟩ := hs
      obtain ⟨x, s, rfl⟩ := List.exists_cons_of_ne_nil hne
      have hx := hall x List.mem_cons_self
      unfold IsDigit at hx
      rw [List.nil_append, List.cons_append,
        readSign_of_ne _ (show x ≠ 0x2D by omega) (show x ≠ 0x2B by omega)]
      exact hread
    · exact hread
    · exact hread
  rw [List.cons_append, List.append_assoc, readExponent, if_pos he, hread']
  exact ⟨_, rfl⟩

theorem readFraction_of_head_ne {t : Text} (h : ∀ c r, t = c :: r → c ≠ Ascii.dot) :
    readFraction t = ([], t) := by
  cases t with
  | nil => rfl
  | cons c r => exact readFraction_of_ne r (h c r rfl)

theorem readExponent_of_head_ne {t : Text} (h : ∀ c r, t = c :: r → c ≠ 0x65 ∧ c ≠ 0x45) :
    readExponent t = (none, t) := by
  cases t with
  | nil => rfl
  | cons c r =>
    obtain ⟨hlower, hupper⟩ := h c r rfl
    rw [readExponent, if_neg (by simp [hlower, hupper])]

/-- **A number is read up to its end**, where something follows that does not go on with it. -/
theorem Number.readNumeral?_append {s rest : Text} (h : Number s)
    (hrest : Delimited (skipBlank rest)) : ∃ n, readNumeral? (s ++ rest) = some (n, rest) := by
  obtain ⟨sign, whole, fraction, exponent, hsign, hwhole, hfraction, hexponent, rfl⟩ := h
  have hdigits : (readDigits rest).2 = rest := readDigits_of_noDigit (noDigit_of_delimited hrest)
  -- from the end to the front, each part with what stands behind it
  obtain ⟨e, he⟩ : ∃ e, readExponent (exponent ++ rest) = (e, rest) := by
    rcases hexponent with rfl | hexponent
    · refine ⟨none, readExponent_of_head_ne ?_⟩
      rintro c r rfl
      exact (ends_of_delimited hrest).2.2
    · obtain ⟨n, hread⟩ := hexponent.readExponent_append rest
      exact ⟨some n, by rw [hread, hdigits]⟩
  have hexponentHead : ∀ c r, exponent ++ rest = c :: r →
      CodePoint.isDigit c = false ∧ c ≠ Ascii.dot := by
    rcases hexponent with rfl | ⟨x, sign', s, hx, -, -, rfl⟩
    · rintro c r rfl
      exact ⟨(ends_of_delimited hrest).1, (ends_of_delimited hrest).2.1⟩
    · intro c r heq
      rw [← (List.cons.inj heq).1]
      rcases hx with rfl | rfl <;> decide
  have hexponentDigits : (readDigits (exponent ++ rest)).2 = exponent ++ rest :=
    readDigits_of_noDigit fun c r heq => (hexponentHead c r heq).1
  obtain ⟨f, hf⟩ : ∃ f, readFraction (fraction ++ (exponent ++ rest)) = (f, exponent ++ rest) := by
    rcases hfraction with rfl | hfraction
    · exact ⟨[], readFraction_of_head_ne fun c r heq => (hexponentHead c r heq).2⟩
    · obtain ⟨c, digits, hread⟩ := hfraction.readFraction_append (exponent ++ rest)
      exact ⟨c :: digits, by rw [hread, hexponentDigits]⟩
  have hfractionHead : NoDigit (fraction ++ (exponent ++ rest)) := by
    rcases hfraction with rfl | ⟨s, -, rfl⟩
    · exact fun c r heq => (hexponentHead c r heq).1
    · intro c r heq
      rw [← (List.cons.inj heq).1]
      decide
  obtain ⟨c, s, hcons, hc⟩ := hwhole.exists_cons
  obtain ⟨b, hb⟩ := readMinus_append hsign (s ++ (fraction ++ (exponent ++ rest))) hc
  refine ⟨⟨b, whole, f, e⟩, readNumeral?_eq_some_iff.2
    ⟨whole ++ (fraction ++ (exponent ++ rest)), fraction ++ (exponent ++ rest), exponent ++ rest,
      ?_, hwhole.readWhole?_append hfractionHead, hf, he⟩⟩
  rw [hcons]
  simp only [List.append_assoc]
  exact hb

/-! ## §4. Strings. -/

theorem exists_hexQuad? {x₁ x₂ x₃ x₄ : Nat} (h₁ : IsHexDigit x₁) (h₂ : IsHexDigit x₂)
    (h₃ : IsHexDigit x₃) (h₄ : IsHexDigit x₄) : ∃ n, hexQuad? x₁ x₂ x₃ x₄ = some n := by
  have hvalue : ∀ {x}, IsHexDigit x → ∃ n, CodePoint.hexValue? x = some n :=
    fun hx => Option.isSome_iff_exists.1 (isHexDigit_iff.2 hx)
  obtain ⟨n₁, hn₁⟩ := hvalue h₁
  obtain ⟨n₂, hn₂⟩ := hvalue h₂
  obtain ⟨n₃, hn₃⟩ := hvalue h₃
  obtain ⟨n₄, hn₄⟩ := hvalue h₄
  unfold hexQuad?
  rw [hn₁, hn₂, hn₃, hn₄]
  exact ⟨_, rfl⟩

theorem Chars.hasPieces {s : Text} (h : Chars s) (r : Text) :
    ∃ pieces, HasPieces (s ++ Ascii.quote :: r) pieces r := by
  induction h with
  | nil => exact ⟨[], .quote r⟩
  | @unescaped c s hcontrol hquote hbackslash _ ih =>
    obtain ⟨pieces, hpieces⟩ := ih
    exact ⟨.plain c :: pieces, .plain hquote hbackslash (Nat.not_lt.2 hcontrol) hpieces⟩
  | @short e s he _ ih =>
    obtain ⟨pieces, hpieces⟩ := ih
    obtain ⟨n, hn⟩ := mem_shortEscapes_iff.1 he
    exact ⟨.plain n :: pieces, .short hn hpieces⟩
  | @numeric x₁ x₂ x₃ x₄ s h₁ h₂ h₃ h₄ _ ih =>
    obtain ⟨pieces, hpieces⟩ := ih
    obtain ⟨n, hn⟩ := exists_hexQuad? h₁ h₂ h₃ h₄
    exact ⟨.numeric n :: pieces, .numeric hn hpieces⟩

variable {d : Dialect}

/-- **A string is read up to its closing quote**, where lone surrogates pass. -/
theorem StringText.readString_append (hd : d.loneSurrogates = true) {s : Text} (h : StringText s)
    (t : Text) :
    ∃ body x, s ++ t = Ascii.quote :: body ∧ readString d (Ascii.quote :: body) body = .ok (x, t) := by
  obtain ⟨s, hs, rfl⟩ := h
  obtain ⟨pieces, hpieces⟩ := hs.hasPieces t
  have hadmits : d.Admits (joinPieces pieces) := by
    unfold Dialect.Admits
    rw [hd]
    rfl
  refine ⟨s ++ Ascii.quote :: t, joinPieces pieces, ?_,
    readString_eq_ok_iff.2 ⟨pieces, hpieces, rfl, hadmits⟩⟩
  rw [List.cons_append, List.append_assoc, List.singleton_append]

/-! ## §5. What derived texts start with. -/

theorem startsValue_of_mem_names {s : Text} (h : s ∈ names) : StartsValue s := by
  simp only [names, List.mem_cons, List.not_mem_nil, or_false] at h
  rcases h with rfl | rfl | rfl | rfl | rfl | rfl <;> exact ⟨_, _, rfl, rfl⟩

theorem Number.startsValue {s : Text} (h : Number s) : StartsValue s := by
  obtain ⟨sign, whole, fraction, exponent, hsign, hwhole, -, -, rfl⟩ := h
  obtain ⟨c, s, rfl, hc⟩ := hwhole.exists_cons
  rcases hsign with rfl | rfl
  · exact ⟨c, _, rfl, (beginsAtom_iff.1 (beginsAtom_of_isDigit hc)).1⟩
  · exact ⟨0x2D, _, rfl, rfl⟩

theorem StringText.startsValue {s : Text} (h : StringText s) : StartsValue s := by
  obtain ⟨s, -, rfl⟩ := h
  exact ⟨0x22, _, rfl, rfl⟩

theorem Mark.starts {c : Nat} {a : Text} (h : Mark c a) (hc : beginsValue c = true) (t : Text) :
    StartsValue (skipBlank (a ++ t)) := by
  obtain ⟨r, hr, -⟩ := h.skipBlank_eq (beginsValue_iff.1 hc).1 t
  exact ⟨c, r, hr, hc⟩

theorem Encloses.beginsValue {opening closing : Nat} {x : Symbol}
    (h : Encloses opening x closing) : beginsValue opening = true := by
  cases h <;> rfl

theorem Encloses.closes {opening closing : Nat} {x : Symbol} (h : Encloses opening x closing) :
    Closes closing := by
  cases h
  · exact .inl rfl
  · exact .inr rfl

theorem isBlank_of_closes {closing : Nat} (h : Closes closing) : isBlank closing = false := by
  rcases h with rfl | rfl <;> rfl

/-- Behind blanks a derived text starts like a value, whatever is derived. -/
theorem Derives.starts {x : Symbol} {s : Text} (h : Derives x s) (t : Text) :
    StartsValue (skipBlank (s ++ t)) := by
  have hvisible : ∀ {s : Text}, StartsValue s → ∀ t, StartsValue (skipBlank (s ++ t)) := by
    intro s hs t
    rw [skipBlank_append_of_startsValue hs t]
    exact hs.append t
  induction h generalizing t with
  | name hs => exact hvisible (startsValue_of_mem_names hs) t
  | number hs => exact hvisible hs.startsValue t
  | string hs => exact hvisible hs.startsValue t
  | empty hx ha _ =>
    rw [List.append_assoc]
    exact ha.starts hx.beginsValue _
  | enclosed hx ha _ _ _ =>
    rw [List.append_assoc]
    exact ha.starts hx.beginsValue _
  | member hname _ _ _ =>
    rw [List.append_assoc]
    exact hvisible hname.startsValue _
  | last _ ih => exact ih t
  | more _ _ _ ih _ =>
    rw [List.append_assoc]
    exact ih _

/-! ## §6. Values, members and series in front of what may follow them. -/

section Series

variable {α : Type} {closing : Nat} {missing : Reason} {one : Text → Except ReadFault (α × Text)}

/-- The reader gets behind the text, be it in front of the blanks there or behind them. -/
def Stands (one : Text → Except ReadFault (α × Text)) (s : Text) : Prop :=
  ∀ rest, Delimited (skipBlank rest) →
    ∃ r, LeadsTo (one (skipBlank (s ++ rest))) r ∧ skipBlank r = skipBlank rest

/-- The reader of a series gets behind the text and the mark that closes the series. -/
def SeriesStands (closing : Nat) (missing : Reason) (one : Text → Except ReadFault (α × Text))
    (s : Text) : Prop :=
  ∀ rest r k, skipBlank rest = closing :: r → (skipBlank (s ++ rest)).length < k →
    LeadsTo (readSeries closing missing one k (skipBlank (s ++ rest))) r

theorem Stands.last {s : Text} (h : Stands one s) (hclosing : Closes closing) :
    SeriesStands closing missing one s := by
  intro rest r k hend hk
  obtain ⟨k, rfl⟩ : ∃ j, k = j + 1 := ⟨k - 1, by omega⟩
  obtain ⟨r', hlead, hr'⟩ := h rest (by rw [hend]; exact hclosing.delimited r)
  refine hlead.bind fun a _ => ?_
  simp only
  rw [hr', hend]
  simp only [if_true]
  exact .inl ⟨[a], rfl⟩

theorem Stands.more {s a t : Text} (h : Stands one s) (hone : LeavesEnding one)
    (ha : Mark Ascii.comma a) (ht : SeriesStands closing missing one t)
    (hclosing : closing ≠ Ascii.comma) :
    SeriesStands closing missing one (s ++ (a ++ t)) := by
  intro rest r k hend hk
  obtain ⟨k, rfl⟩ : ∃ j, k = j + 1 := ⟨k - 1, by omega⟩
  simp only [List.append_assoc] at hk ⊢
  obtain ⟨u, hu, hskip⟩ := ha.skipBlank_eq rfl (t ++ rest)
  obtain ⟨r', hlead, hr'⟩ := h (a ++ (t ++ rest)) (by rw [hu]; exact delimited_comma u)
  refine hlead.bind fun x hx => ?_
  simp only
  rw [hr', hu]
  simp only [if_neg (Ne.symm hclosing), if_true]
  rw [hskip]
  -- the comma is gone, so the rounds that are left suffice
  have hshorter : (skipBlank (t ++ rest)).length < k := by
    have hleft := (hone _ x r' hx).length_le
    have hcomma := (leaves_skipBlank r').length_le
    have hblank := (leaves_skipBlank u).length_le
    rw [hr', hu, List.length_cons] at hcomma
    rw [hskip] at hblank
    omega
  exact (ht rest r k hend hshorter).bind fun as _ => .inl ⟨x :: as, rfl⟩

/-- Behind the opening mark nothing may stand. -/
theorem readEnclosed_closing {t r : Text} (h : skipBlank t = closing :: r) :
    LeadsTo (readEnclosed closing missing one t) r :=
  .inl ⟨[], readEnclosed_eq_ok_iff.2 (.inl ⟨h, rfl⟩)⟩

/-- Or a series that is closed. -/
theorem SeriesStands.readEnclosed {s rest t r : Text} (h : SeriesStands closing missing one s)
    (hstarts : StartsValue (skipBlank (s ++ rest))) (hclosing : Closes closing)
    (ht : skipBlank t = skipBlank (s ++ rest)) (hrest : skipBlank rest = closing :: r) :
    LeadsTo (readEnclosed closing missing one t) r := by
  have hne : ¬ (skipBlank (s ++ rest)).head? = some closing := hstarts.head_ne hclosing
  unfold Json.readEnclosed
  rw [ht, if_neg hne]
  exact h rest r _ hrest (Nat.lt_succ_self _)

end Series

variable {item : ItemReader}

theorem readMember_stands (hd : d.loneSurrogates = true) {name a s : Text} (hname : StringText name)
    (ha : Mark Ascii.colon a) (hs : Stands item s) :
    Stands (readMember d item) (name ++ (a ++ s)) := by
  intro rest hrest
  simp only [List.append_assoc]
  rw [skipBlank_append_of_startsValue hname.startsValue]
  obtain ⟨body, x, heq, hread⟩ := hname.readString_append hd (a ++ (s ++ rest))
  obtain ⟨u, hu, hskip⟩ := ha.skipBlank_eq rfl (s ++ rest)
  obtain ⟨r, hlead, hr⟩ := hs rest hrest
  refine ⟨r, ?_, hr⟩
  rw [heq]
  have hstring : LeadsTo (readString d (Ascii.quote :: body) body) (a ++ (s ++ rest)) :=
    .inl ⟨x, hread⟩
  refine hstring.bind fun _ _ => ?_
  simp only
  rw [hu]
  simp only
  rw [hskip]
  exact hlead.bind fun v _ => .inl ⟨(_, v), rfl⟩

/-- An atom that is read is read as a value on every level. -/
theorem leadsTo_of_readAtom (n : Nat) {t r : Text} {v : Json} (h : readAtom d t = .ok (v, r)) :
    LeadsTo (readValue d n t) r :=
  .inl ⟨v, readValue_eq_ok_iff.2 (.inr (.inr (.inr h)))⟩

theorem leadsTo_name (n : Nat) {s : Text} (hs : s ∈ names) (rest : Text) :
    LeadsTo (readValue d n (s ++ rest)) rest := by
  obtain ⟨v, hentry⟩ := mem_names_iff.1 hs
  have hnamed : readNamed? (s ++ rest) = some (v, rest) :=
    readNamed?_eq_some_iff.2 ⟨s, hentry, rfl⟩
  exact leadsTo_of_readAtom n (readAtom_eq_ok_iff.2 (.inl hnamed))

/-- A number may be too long, and is a value otherwise. -/
theorem leadsTo_number (n : Nat) {s rest : Text} (hs : Number s)
    (hrest : Delimited (skipBlank rest)) : LeadsTo (readValue d n (s ++ rest)) rest := by
  obtain ⟨numeral, hread⟩ := hs.readNumeral?_append hrest
  by_cases hlong : d.isTooLong numeral = true
  · exact .inr ⟨_, readValue_longNumber hread hlong, trivial⟩
  · have hnamed : readNamed? (s ++ rest) = none := by
      obtain ⟨c, t, heq, hc⟩ := exists_digit_of_readNumeral? hread
      rw [heq]
      exact readNamed?_signed numeral.negative t hc
    obtain ⟨v, hv⟩ : ∃ v, numeral.value d = .ok v := by
      unfold Numeral.value
      rw [if_neg hlong]
      split <;> exact ⟨_, rfl⟩
    exact leadsTo_of_readAtom n (readAtom_eq_ok_iff.2 (.inr ⟨hnamed, numeral, hread, hv⟩))

/-- What gets behind the inside of an array or object gets behind the whole, unless that may not
begin, which is a limit. -/
theorem readValue_enclosed (n : Nat) {s r : Text} :
    (LeadsTo (readEnclosed Ascii.closeBracket .valueExpected (innerReader d n) s) r →
        LeadsTo (readValue d n (Ascii.openBracket :: s)) r)
      ∧ (LeadsTo (readEnclosed Ascii.closeBrace .nameExpected (readMember d (innerReader d n)) s) r →
        LeadsTo (readValue d n (Ascii.openBrace :: s)) r) := by
  by_cases hn : d.Opens n
  · constructor
    · intro h
      rw [readValue_array hn, readArray_eq_readEnclosed]
      exact h.map _
    · intro h
      rw [readValue_object hn, readObject_eq_readEnclosed]
      exact h.map _
  · obtain ⟨hbracket, hbrace⟩ := readValue_of_not_opens hn s
    exact ⟨fun _ => .inr ⟨_, hbracket, trivial⟩, fun _ => .inr ⟨_, hbrace, trivial⟩⟩

/-! ## §7. Every rule of the grammar. -/

/-- The text is read as what the symbol stands for, on every level. -/
def Complete (d : Dialect) : Symbol → Text → Prop
  | .value, s => ∀ n, Stands (readValue d n) s
  | .member, s => ∀ n, Stands (readMember d (innerReader d n)) s
  | .series .value, s =>
      ∀ n, SeriesStands Ascii.closeBracket .valueExpected (innerReader d n) s
  | .series .member, s =>
      ∀ n, SeriesStands Ascii.closeBrace .nameExpected (readMember d (innerReader d n)) s
  | .series (.series _), _ => True

/-- What stands on every level stands inside of every level: below the last one is a limit. -/
theorem stands_innerReader {s : Text} (h : ∀ n, Stands (readValue d n) s) (n : Nat) :
    Stands (innerReader d n) s := by
  cases n with
  | zero => exact fun rest _ => ⟨rest, .inr ⟨.tooDeep, rfl, trivial⟩, rfl⟩
  | succ n => exact h n

/-- **What is derived from a symbol is read as what it stands for.** -/
theorem complete_of_derives (hd : d.loneSurrogates = true) {x : Symbol} {s : Text}
    (h : Derives x s) : Complete d x s := by
  induction h with
  | name hs =>
    intro n rest _
    rw [skipBlank_append_of_startsValue (startsValue_of_mem_names hs)]
    exact ⟨rest, leadsTo_name n hs rest, rfl⟩
  | number hs =>
    intro n rest hrest
    rw [skipBlank_append_of_startsValue hs.startsValue]
    exact ⟨rest, leadsTo_number n hs hrest, rfl⟩
  | string hs =>
    intro n rest _
    rw [skipBlank_append_of_startsValue hs.startsValue]
    obtain ⟨body, x, heq, hread⟩ := hs.readString_append hd rest
    rw [heq, readValue_string, hread]
    exact ⟨rest, .inl ⟨.string x, rfl⟩, rfl⟩
  | @empty opening closing x a b hx ha hb =>
    intro n rest _
    rw [List.append_assoc]
    obtain ⟨t, ht, hskip⟩ := ha.skipBlank_eq (beginsValue_iff.1 hx.beginsValue).1 (b ++ rest)
    obtain ⟨r, hr, hrest⟩ := hb.skipBlank_eq (isBlank_of_closes hx.closes) rest
    rw [hr] at hskip
    refine ⟨r, ?_, hrest⟩
    rw [ht]
    cases hx with
    | array => exact (readValue_enclosed n).1 (readEnclosed_closing hskip)
    | object => exact (readValue_enclosed n).2 (readEnclosed_closing hskip)
  | @enclosed opening closing x a s b hx ha hs hb ih =>
    intro n rest _
    simp only [List.append_assoc]
    obtain ⟨t, ht, hskip⟩ := ha.skipBlank_eq (beginsValue_iff.1 hx.beginsValue).1 (s ++ (b ++ rest))
    obtain ⟨r, hr, hrest⟩ := hb.skipBlank_eq (isBlank_of_closes hx.closes) rest
    refine ⟨r, ?_, hrest⟩
    rw [ht]
    cases hx with
    | array =>
      exact (readValue_enclosed n).1 ((ih n).readEnclosed (hs.starts _) (.inl rfl) hskip hr)
    | object =>
      exact (readValue_enclosed n).2 ((ih n).readEnclosed (hs.starts _) (.inr rfl) hskip hr)
  | member hname ha _ ih =>
    exact fun n => readMember_stands hd hname ha (stands_innerReader ih n)
  | @last x s _ ih =>
    cases x with
    | value => exact fun n => (stands_innerReader ih n).last (.inl rfl)
    | member => exact fun n => (ih n).last (.inr rfl)
    | series => trivial
  | @more x s a r _ ha _ ihs ihr =>
    cases x with
    | value =>
      exact fun n => (stands_innerReader ihs n).more (leavesEnding_innerReader n) ha (ihr n)
        (by decide)
    | member =>
      exact fun n => (ihs n).more (leavesEnding_innerReader n).readMember ha (ihr n) (by decide)
    | series => trivial

/-- **A text of the grammar is read, or it runs into a limit.** -/
theorem read_of_isText (hd : d.loneSurrogates = true) {t : Text} (h : IsText t) :
    (∃ v, read d t = .ok v) ∨ ∃ fault, read d t = .error fault ∧ fault.IsLimit := by
  obtain ⟨w, s, w', hw, hs, hw', rfl⟩ := h
  have hend : skipBlank w' = [] := by
    have hskip := skipBlank_append hw' []
    rw [List.append_nil] at hskip
    exact hskip
  obtain ⟨r, hlead, hr⟩ := complete_of_derives hd hs d.maxNesting w' (by rw [hend]; exact delimited_nil)
  rw [← skipBlank_append hw (s ++ w')] at hlead
  rcases hlead with ⟨v, hread⟩ | ⟨fault, hread, hlimit⟩
  · exact .inl ⟨v, read_eq_ok_iff.2 ⟨r, hread, by rw [hr, hend]⟩⟩
  · exact .inr ⟨fault, Result.bind_eq_error_iff.2 (.inl hread), hlimit⟩

end EditorWire.Json.Grammar
