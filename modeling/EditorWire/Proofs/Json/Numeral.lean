/-
  EditorWire.Proofs.Json.Numeral — numbers that are written read back.

  A written number is a sign, digits in front of the point, digits after it and
  an exponent.  In front of a text that cannot be part of a number it is read as
  these four parts.  Integers and the numbers of the binary format are written so,
  and the parts have their values:

      1500.0   ↦   1500 · 10 ^ 0          0.00025   ↦   25 · 10 ^ (−5)
      1.5e+16  ↦   15 · 10 ^ 15

  Main results:
    * `readAtom_ofInt` — an integer reads back unless it has too many digits.
    * `readAtom_write` — a number of the format reads back.
-/
import EditorWire.Json.Payload
import EditorWire.Json.Printer
import EditorWire.Proofs.Number.Digits
import EditorWire.Proofs.Number.Shortest
import EditorWire.Proofs.Result

namespace EditorWire.Json

open Decimal (AllDigits IsLeading allDigits_zeros isDigit_between isLeading_ofNat)

/-! ## §1. Marks and digits in front of a text. -/

/-- Without its mark in front a part is not there, and the text is left as it is. -/
theorem readMinus_of_ne {c : ℕ} (r : Text) (h : c ≠ Ascii.hyphen) :
    readMinus (c :: r) = (false, c :: r) :=
  readMinus.eq_2 (c :: r) fun _ heq => h (List.cons.inj heq).1

theorem readWhole?_of_ne {c : ℕ} (r : Text) (h : c ≠ 0x30) :
    readWhole? (c :: r)
      = if CodePoint.isDigit c then some (c :: (readDigits r).1, (readDigits r).2) else none :=
  readWhole?.eq_2 c r h

theorem readFraction_of_ne {c : ℕ} (r : Text) (h : c ≠ Ascii.dot) :
    readFraction (c :: r) = ([], c :: r) :=
  readFraction.eq_2 (c :: r) fun _ heq => h (List.cons.inj heq).1

theorem readSign_of_ne {c : ℕ} (r : Text) (hhyphen : c ≠ Ascii.hyphen) (hplus : c ≠ Ascii.plus) :
    readSign (c :: r) = (false, c :: r) :=
  readSign.eq_3 (c :: r) (fun _ heq => hhyphen (List.cons.inj heq).1)
    fun _ heq => hplus (List.cons.inj heq).1

/-- No digit stands at the beginning. -/
def NoDigit (t : Text) : Prop := ∀ c r, t = c :: r → CodePoint.isDigit c = false

/-- All digits in front of a text that starts with none are read. -/
theorem readDigits_append {digits rest : Text} (h : AllDigits digits) (hrest : NoDigit rest) :
    readDigits (digits ++ rest) = (digits, rest) := by
  have hstop : rest.takeWhile CodePoint.isDigit = [] ∧ rest.dropWhile CodePoint.isDigit = rest := by
    cases rest with
    | nil => exact ⟨rfl, rfl⟩
    | cons c r =>
      have hc := hrest c r rfl
      rw [List.takeWhile_cons, List.dropWhile_cons, hc]
      exact ⟨rfl, rfl⟩
  unfold readDigits
  rw [List.takeWhile_append_of_pos h, List.dropWhile_append_of_pos h, hstop.1, hstop.2,
    List.append_nil]

/-- What may follow a value inside an array or object, or at the end of the text. -/
def Delimited (rest : Text) : Prop :=
  ∀ c r, rest = c :: r → c = Ascii.comma ∨ c = Ascii.closeBracket ∨ c = Ascii.closeBrace

theorem delimited_nil : Delimited [] := by
  intro c r h
  cases h

theorem delimited_comma (r : Text) : Delimited (Ascii.comma :: r) := by
  intro c r' h
  exact .inl (List.cons.inj h).1.symm

theorem delimited_closeBracket (r : Text) : Delimited (Ascii.closeBracket :: r) := by
  intro c r' h
  exact .inr (.inl (List.cons.inj h).1.symm)

theorem delimited_closeBrace (r : Text) : Delimited (Ascii.closeBrace :: r) := by
  intro c r' h
  exact .inr (.inr (List.cons.inj h).1.symm)

theorem Delimited.noDigit {rest : Text} (h : Delimited rest) : NoDigit rest := by
  intro c r heq
  rcases h c r heq with rfl | rfl | rfl <;> rfl

/-! ## §2. Written numbers. -/

/-- A number as it is written. -/
structure Written where
  negative : Bool
  /-- The digits in front of the point. -/
  whole : Text
  /-- The digits after it; without any there is no point. -/
  fraction : Text
  /-- The sign and the digits of the exponent. -/
  exponent : Option (Bool × Text)

namespace Written

/-- The point and what follows it. -/
def fractionText (fraction : Text) : Text :=
  if fraction = [] then [] else Ascii.dot :: fraction

/-- The exponent with its mark and its sign. -/
def exponentText : Option (Bool × Text) → Text
  | none => []
  | some (negative, digits) =>
      0x65 :: (if negative then Ascii.hyphen else Ascii.plus) :: digits

/-- The number as a text. -/
def text (w : Written) : Text :=
  FloatStyle.signed w.negative (w.whole ++ fractionText w.fraction ++ exponentText w.exponent)

/-- The exponent as a number. -/
def exponentValue (exponent : Option (Bool × Text)) : Option ℤ :=
  exponent.map fun (negative, digits) =>
    if negative then -(Decimal.value digits : ℤ) else Decimal.value digits

/-- The number with its parts. -/
def numeral (w : Written) : Numeral :=
  ⟨w.negative, w.whole, w.fraction, exponentValue w.exponent⟩

/-- The parts are what a reader takes for them. -/
structure IsProper (w : Written) : Prop where
  whole_digits : AllDigits w.whole
  whole_head : w.whole = [0x30] ∨ ∃ c r, w.whole = c :: r ∧ c ≠ 0x30
  fraction_digits : AllDigits w.fraction
  exponent_digits : ∀ negative digits, w.exponent = some (negative, digits) →
    digits ≠ [] ∧ AllDigits digits

end Written

/-- An exponent that is not there has no digits to check. -/
theorem noExponent_digits (negative : Bool) (digits : Text)
    (h : (none : Option (Bool × Text)) = some (negative, digits)) :
    digits ≠ [] ∧ AllDigits digits := by
  cases h

/-- A number starts with a digit behind its sign. -/
theorem Written.IsProper.exists_whole_eq {w : Written} (h : w.IsProper) :
    ∃ c r, w.whole = c :: r ∧ CodePoint.isDigit c = true := by
  rcases h.whole_head with hwhole | ⟨c, r, hwhole, -⟩
  · exact ⟨0x30, [], hwhole, rfl⟩
  · refine ⟨c, r, hwhole, h.whole_digits c ?_⟩
    rw [hwhole]
    exact List.mem_cons_self

/-- The exponent of a written number is read. -/
theorem readExponent_text {exponent : Option (Bool × Text)} {rest : Text}
    (h : ∀ negative digits, exponent = some (negative, digits) → digits ≠ [] ∧ AllDigits digits)
    (hrest : Delimited rest) :
    readExponent (Written.exponentText exponent ++ rest)
      = (Written.exponentValue exponent, rest) := by
  cases exponent with
  | none =>
    show readExponent rest = (none, rest)
    cases rest with
    | nil => rfl
    | cons c r =>
      rcases hrest c r rfl with rfl | rfl | rfl <;> rfl
  | some exponent =>
    obtain ⟨negative, digits⟩ := exponent
    obtain ⟨hne, hdigits⟩ := h negative digits rfl
    have hsign : readSign
        ((if negative = true then Ascii.hyphen else Ascii.plus) :: (digits ++ rest))
          = (negative, digits ++ rest) := by
      cases negative <;> rfl
    have hread := readDigits_append hdigits hrest.noDigit
    obtain ⟨c, r, rfl⟩ := List.exists_cons_of_ne_nil hne
    show readExponent
        (0x65 :: (if negative = true then Ascii.hyphen else Ascii.plus) :: (c :: r ++ rest)) = _
    rw [readExponent, if_pos (Or.inl rfl), hsign]
    simp only
    rw [hread]
    rfl

theorem noDigit_exponentText (exponent : Option (Bool × Text)) {rest : Text}
    (hrest : Delimited rest) : NoDigit (Written.exponentText exponent ++ rest) := by
  cases exponent with
  | none => exact hrest.noDigit
  | some exponent =>
    intro c r heq
    rw [← (List.cons.inj heq).1]
    rfl

theorem noDigit_fractionText (fraction : Text) {rest : Text} (hrest : NoDigit rest) :
    NoDigit (Written.fractionText fraction ++ rest) := by
  unfold Written.fractionText
  split
  · exact hrest
  · intro c r heq
    rw [← (List.cons.inj heq).1]
    rfl

/-- The fraction of a written number is read, whatever its exponent is. -/
theorem readFraction_text {fraction rest : Text} {exponent : Option (Bool × Text)}
    (h : AllDigits fraction) (hrest : Delimited rest) :
    readFraction (Written.fractionText fraction ++ (Written.exponentText exponent ++ rest))
      = (fraction, Written.exponentText exponent ++ rest) := by
  unfold Written.fractionText
  split
  · next hnil =>
    subst hnil
    show readFraction (Written.exponentText exponent ++ rest) = ([], _)
    cases exponent with
    | none =>
      show readFraction rest = ([], rest)
      cases rest with
      | nil => rfl
      | cons c r =>
        rcases hrest c r rfl with rfl | rfl | rfl <;> rfl
    | some exponent => rfl
  · next hne =>
    have hread := readDigits_append h (noDigit_exponentText exponent hrest)
    obtain ⟨c, r, rfl⟩ := List.exists_cons_of_ne_nil hne
    show readFraction (Ascii.dot :: (c :: r ++ (Written.exponentText exponent ++ rest))) = _
    unfold readFraction
    simp only
    rw [hread]

/-- The digits in front of the point are read. -/
theorem readWhole?_append {whole rest : Text} (hdigits : AllDigits whole)
    (hhead : whole = [0x30] ∨ ∃ c r, whole = c :: r ∧ c ≠ 0x30) (hrest : NoDigit rest) :
    readWhole? (whole ++ rest) = some (whole, rest) := by
  rcases hhead with rfl | ⟨c, r, rfl, hc⟩
  · rfl
  · have hr : AllDigits r := fun x hx => hdigits x (List.mem_cons_of_mem c hx)
    show readWhole? (c :: (r ++ rest)) = _
    rw [readWhole?_of_ne (r ++ rest) hc, if_pos (hdigits c List.mem_cons_self),
      readDigits_append hr hrest]

/-- What follows a written number is what follows its exponent. -/
theorem Written.text_append (w : Written) (rest : Text) :
    w.text ++ rest = FloatStyle.signed w.negative
      (w.whole ++ (fractionText w.fraction ++ (exponentText w.exponent ++ rest))) := by
  unfold Written.text
  cases w.negative with
  | true =>
    show Ascii.hyphen :: (w.whole ++ fractionText w.fraction ++ exponentText w.exponent ++ rest) = _
    rw [List.append_assoc, List.append_assoc]
    rfl
  | false =>
    show w.whole ++ fractionText w.fraction ++ exponentText w.exponent ++ rest = _
    rw [List.append_assoc, List.append_assoc]
    rfl

/-- The sign in front of a digit is read. -/
theorem readMinus_signed (negative : Bool) {c : ℕ} (r : Text) (hc : CodePoint.isDigit c = true) :
    readMinus (FloatStyle.signed negative (c :: r)) = (negative, c :: r) := by
  cases negative with
  | true => rfl
  | false =>
    refine readMinus_of_ne r ?_
    have hbetween := isDigit_between hc
    show c ≠ 0x2D
    omega

/-- **A written number is read as its parts.** -/
theorem readNumeral?_text {w : Written} {rest : Text} (h : w.IsProper) (hrest : Delimited rest) :
    readNumeral? (w.text ++ rest) = some (w.numeral, rest) := by
  have hwhole := readWhole?_append h.whole_digits h.whole_head
    (noDigit_fractionText w.fraction (noDigit_exponentText w.exponent hrest))
  have hminus : readMinus (w.text ++ rest)
      = (w.negative, w.whole ++ (Written.fractionText w.fraction
          ++ (Written.exponentText w.exponent ++ rest))) := by
    obtain ⟨c, r, heq, hc⟩ := h.exists_whole_eq
    rw [Written.text_append, heq]
    exact readMinus_signed w.negative _ hc
  -- sign, whole, fraction and exponent, each leaving the next in front
  unfold readNumeral?
  rw [hminus]
  simp only
  rw [hwhole]
  simp only
  rw [readFraction_text h.fraction_digits hrest]
  simp only
  rw [readExponent_text h.exponent_digits hrest]
  rfl

/-- No value of a name starts like a number. -/
theorem readNamed?_signed (negative : Bool) {c : ℕ} (r : Text) (hc : CodePoint.isDigit c = true) :
    readNamed? (FloatStyle.signed negative (c :: r)) = none := by
  have hbetween := isDigit_between hc
  -- names start with a letter, or with a letter behind the minus sign
  have hletter : ∀ letter, 0x39 < letter → (letter == c) = false := by
    intro letter hlt
    rw [beq_eq_false_iff_ne]
    omega
  have hsign : (0x2D == c) = false := by
    rw [beq_eq_false_iff_ne]
    omega
  cases negative <;>
    simp [FloatStyle.signed, readNamed?, namedValues, Text.ofString, List.isPrefixOf?, hletter,
      hsign]

/-- A number that is read as a value is read as its parts. -/
theorem readAtom_text (d : Dialect) {w : Written} {rest : Text} (h : w.IsProper)
    (hrest : Delimited rest) :
    readAtom d (w.text ++ rest) = (w.numeral.value d).map fun v => (v, rest) := by
  have hnamed : readNamed? (w.text ++ rest) = none := by
    obtain ⟨c, r, heq, hc⟩ := h.exists_whole_eq
    rw [Written.text_append, heq]
    exact readNamed?_signed w.negative _ hc
  unfold readAtom
  rw [hnamed, readNumeral?_text h hrest]

/-! ## §3. Written integers. -/

/-- The parts of an integer. -/
def Written.ofInt (i : ℤ) : Written := ⟨decide (i < 0), Decimal.ofNat i.natAbs, [], none⟩

theorem Written.text_ofInt (i : ℤ) : (Written.ofInt i).text = Decimal.ofInt i := by
  show FloatStyle.signed (decide (i < 0)) (Decimal.ofNat i.natAbs ++ [] ++ []) = _
  rw [List.append_nil, List.append_nil]
  unfold FloatStyle.signed Decimal.ofInt
  split
  · next h => rw [if_pos (of_decide_eq_true h)]
  · next h => rw [if_neg (fun hneg => h (decide_eq_true hneg))]

theorem Written.isProper_ofInt (i : ℤ) : (Written.ofInt i).IsProper where
  whole_digits := Decimal.allDigits_ofNat i.natAbs
  whole_head := by
    rcases Nat.eq_zero_or_pos i.natAbs with h | h
    · left
      show Decimal.ofNat i.natAbs = [0x30]
      rw [h, Decimal.ofNat, Decimal.ofNatOnto, if_pos (by decide)]
    · exact .inr (Decimal.ofNat_head h)
  fraction_digits := by
    intro c hc
    cases hc
  exponent_digits := noExponent_digits

variable {levels : Nat}

/-- The value of an integer, which is all that can be wrong with it. -/
theorem Numeral.value_ofInt (i : ℤ) :
    (Written.ofInt i).numeral.value (payloadDialect levels)
      = if 4300 < (Decimal.ofNat i.natAbs).length then
          .error (.longNumber (Decimal.ofNat i.natAbs).length)
        else .ok (.int i) := by
  have hvalue : (if (decide (i < 0)) = true then -(Decimal.value (Decimal.ofNat i.natAbs) : ℤ)
      else Decimal.value (Decimal.ofNat i.natAbs)) = i := by
    rw [Decimal.value_ofNat]
    split
    · next h =>
      have hneg := of_decide_eq_true h
      omega
    · next h =>
      have hnonneg : ¬ i < 0 := fun hneg => h (decide_eq_true hneg)
      omega
  have hinteger : (Written.ofInt i).numeral.isInteger = true := rfl
  have hlong : (payloadDialect levels).isTooLong (Written.ofInt i).numeral = true
      ↔ 4300 < (Decimal.ofNat i.natAbs).length := by
    show ((Written.ofInt i).numeral.isInteger && decide (4300 < (Decimal.ofNat i.natAbs).length))
      = true ↔ _
    rw [hinteger, Bool.true_and, decide_eq_true_eq]
  unfold Numeral.value
  by_cases h : 4300 < (Decimal.ofNat i.natAbs).length
  · rw [if_pos (hlong.2 h), if_pos h]
    rfl
  · rw [if_neg (fun hl => h (hlong.1 hl)), if_neg h, if_pos hinteger]
    exact congrArg (fun j => Except.ok (Json.int j)) hvalue

/-- **A written integer reads back unless it has too many digits.** -/
theorem readAtom_ofInt {i : ℤ} {rest : Text} (hrest : Delimited rest) {result : Json × Text} :
    readAtom (payloadDialect levels) (Decimal.ofInt i ++ rest) = .ok result
      ↔ (Decimal.ofNat i.natAbs).length ≤ 4300 ∧ result = (.int i, rest) := by
  rw [← Written.text_ofInt, readAtom_text (payloadDialect levels) (Written.isProper_ofInt i) hrest,
    Numeral.value_ofInt, Result.map_eq_ok_iff]
  -- the number of digits is all there is to check
  constructor
  · rintro ⟨v, hv, rfl⟩
    split at hv
    · cases hv
    · next hshort =>
      rw [← Except.ok.inj hv]
      exact ⟨Nat.le_of_not_lt hshort, rfl⟩
  · rintro ⟨hshort, rfl⟩
    refine ⟨.int i, ?_, rfl⟩
    rw [if_neg (Nat.not_lt.2 hshort)]

/-! ## §4. Written numbers of the format. -/

/-- The value of a written number with a fraction or an exponent. -/
def Written.IsOf (w : Written) (d : ℕ) (e : ℤ) : Prop :=
  0 < Decimal.value (w.whole ++ w.fraction)
    ∧ (Decimal.value (w.whole ++ w.fraction) : ℚ)
        * 10 ^ ((exponentValue w.exponent).getD 0 - w.fraction.length) = d * 10 ^ e

/-- The digits of `d` with the last `n` of them behind the point. -/
theorem Written.isOf_of_value_eq {w : Written} {d : ℕ} {e : ℤ} (hd : 0 < d) {n : ℕ}
    (hvalue : Decimal.value (w.whole ++ w.fraction) = d * 10 ^ n)
    (hexponent : (exponentValue w.exponent).getD 0 - w.fraction.length = e - n) : w.IsOf d e := by
  refine ⟨by rw [hvalue]; positivity, ?_⟩
  rw [hvalue, hexponent, zpow_sub₀ (by norm_num), zpow_natCast]
  push_cast
  field_simp

/-- The parts of digits written without an exponent. -/
def Written.plain (negative : Bool) (digits : Text) (point : ℤ) : Written :=
  if point ≤ 0 then ⟨negative, [0x30], FloatStyle.zeros (-point).toNat ++ digits, none⟩
  else if digits.length ≤ point.toNat then
    ⟨negative, digits ++ FloatStyle.zeros (point.toNat - digits.length), [0x30], none⟩
  else ⟨negative, digits.take point.toNat, digits.drop point.toNat, none⟩

/-- The parts of digits written with an exponent. -/
def Written.scientific (style : FloatStyle) (negative : Bool) (digits : Text) (exponent : ℤ) :
    Written :=
  ⟨negative, digits.take 1, digits.drop 1,
    some (decide (exponent < 0),
      FloatStyle.zeros (style.exponentDigits - (Decimal.ofNat exponent.natAbs).length)
        ++ Decimal.ofNat exponent.natAbs)⟩

theorem Written.text_plain {digits : Text} (h : IsLeading digits) (negative : Bool) (point : ℤ) :
    (Written.plain negative digits point).text
      = FloatStyle.signed negative (FloatStyle.plain digits point) := by
  obtain ⟨c, r, heq, -⟩ := h.head
  unfold Written.plain FloatStyle.plain
  -- both choose the form by the same two comparisons
  split
  · have hne : FloatStyle.zeros (-point).toNat ++ digits ≠ [] := by
      rw [heq]
      simp
    unfold Written.text fractionText exponentText
    rw [if_neg hne, List.append_nil]
    rfl
  split
  · unfold Written.text fractionText exponentText
    rw [if_neg (by simp), List.append_nil]
    rfl
  · next hlength =>
    have hne : digits.drop point.toNat ≠ [] := by
      rw [Ne, List.drop_eq_nil_iff]
      exact hlength
    unfold Written.text fractionText exponentText
    rw [if_neg hne, List.append_nil]
    simp only [List.append_assoc, List.singleton_append]

theorem Written.text_scientific (style : FloatStyle) (negative : Bool) (digits : Text)
    (exponent : ℤ) :
    (Written.scientific style negative digits exponent).text
      = FloatStyle.signed negative (style.scientific digits exponent) := by
  have hfraction : fractionText (digits.drop 1)
      = if digits.length ≤ 1 then [] else Ascii.dot :: digits.drop 1 := by
    unfold fractionText
    simp only [List.drop_eq_nil_iff]
  unfold Written.scientific Written.text FloatStyle.scientific
  simp only [hfraction, exponentText, decide_eq_true_eq, List.append_assoc, List.cons_append,
    List.nil_append]

theorem Written.isProper_plain {digits : Text} (h : IsLeading digits) (negative : Bool)
    (point : ℤ) : (Written.plain negative digits point).IsProper := by
  have hzero : AllDigits [0x30] := allDigits_zeros 1
  unfold Written.plain
  split
  · exact ⟨hzero, .inl rfl, (allDigits_zeros _).append h.all, noExponent_digits⟩
  split
  · have hwhole := h.append (allDigits_zeros (point.toNat - digits.length))
    exact ⟨hwhole.all, .inr hwhole.head, hzero, noExponent_digits⟩
  · have hwhole := h.take (n := point.toNat) (by omega)
    exact ⟨hwhole.all, .inr hwhole.head, h.all.drop _, noExponent_digits⟩

theorem Written.isProper_scientific (style : FloatStyle) {digits : Text} (h : IsLeading digits)
    (negative : Bool) (exponent : ℤ) :
    (Written.scientific style negative digits exponent).IsProper where
  whole_digits := h.all.take 1
  whole_head := .inr (h.take one_pos).head
  fraction_digits := h.all.drop 1
  exponent_digits := by
    intro negative' digits' heq
    obtain ⟨-, rfl⟩ := Prod.mk.inj (Option.some.inj heq)
    refine ⟨?_, (allDigits_zeros _).append (Decimal.allDigits_ofNat _)⟩
    intro hnil
    exact Decimal.ofNat_ne_nil _ (List.append_eq_nil_iff.1 hnil).2

theorem Written.isOf_plain {d : ℕ} (hd : 0 < d) (negative : Bool) (e : ℤ) :
    (Written.plain negative (Decimal.ofNat d) (e + (Decimal.ofNat d).length)).IsOf d e := by
  have hzero : Decimal.value [0x30] = 0 := rfl
  unfold Written.plain
  -- zeros in front, zeros behind, or the point between two digits
  split
  · refine Written.isOf_of_value_eq hd (n := 0) ?_ ?_
    · show Decimal.value ([0x30] ++ (FloatStyle.zeros _ ++ Decimal.ofNat d)) = _
      rw [Decimal.value_append, Decimal.value_append, hzero, Decimal.value_zeros,
        Decimal.value_ofNat]
      omega
    · show (0 : ℤ) - ((FloatStyle.zeros _ ++ Decimal.ofNat d).length : ℕ) = _
      rw [List.length_append, FloatStyle.zeros, List.length_replicate]
      omega
  split
  · refine Written.isOf_of_value_eq hd
      (n := (e + (Decimal.ofNat d).length).toNat - (Decimal.ofNat d).length + 1) ?_ ?_
    · show Decimal.value (Decimal.ofNat d ++ FloatStyle.zeros _ ++ [0x30]) = _
      rw [Decimal.value_append, Decimal.value_append, hzero, Decimal.value_zeros,
        Decimal.value_ofNat, FloatStyle.zeros, List.length_replicate, List.length_singleton,
        pow_succ]
      ring
    · show (0 : ℤ) - (1 : ℕ) = _
      omega
  · refine Written.isOf_of_value_eq hd (n := 0) ?_ ?_
    · show Decimal.value (List.take _ _ ++ List.drop _ _) = _
      rw [List.take_append_drop, Decimal.value_ofNat, pow_zero, Nat.mul_one]
    · show (0 : ℤ) - ((List.drop _ _).length : ℕ) = _
      rw [List.length_drop]
      omega

theorem Written.isOf_scientific (style : FloatStyle) {d : ℕ} (hd : 0 < d) (negative : Bool)
    (e : ℤ) :
    (Written.scientific style negative (Decimal.ofNat d)
      (e + (Decimal.ofNat d).length - 1)).IsOf d e := by
  have hlength : 0 < (Decimal.ofNat d).length :=
    List.length_pos_of_ne_nil (Decimal.ofNat_ne_nil d)
  refine Written.isOf_of_value_eq hd (n := 0) ?_ ?_
  · show Decimal.value (List.take 1 _ ++ List.drop 1 _) = _
    rw [List.take_append_drop, Decimal.value_ofNat, pow_zero, Nat.mul_one]
  · show (if decide _ = true then -(Decimal.value (_ ++ Decimal.ofNat _) : ℤ)
        else Decimal.value (_ ++ Decimal.ofNat _)) - ((List.drop 1 _).length : ℕ) = _
    rw [List.length_drop, Decimal.value_append, Decimal.value_zeros, Decimal.value_ofNat]
    split
    · next h =>
      have hneg := of_decide_eq_true h
      omega
    · next h =>
      have hnonneg : ¬ e + ((Decimal.ofNat d).length : ℤ) - 1 < 0 :=
        fun hneg => h (decide_eq_true hneg)
      omega

/-- Neither form is that of an integer. -/
theorem Written.isInteger_plain {digits : Text} (h : IsLeading digits) (negative : Bool)
    (point : ℤ) : (Written.plain negative digits point).numeral.isInteger = false := by
  have hfraction : (Written.plain negative digits point).fraction ≠ [] := by
    obtain ⟨c, r, heq, -⟩ := h.head
    unfold Written.plain
    split
    · rw [heq]
      simp
    split
    · exact List.cons_ne_nil _ _
    · next hlength =>
      rw [Ne, List.drop_eq_nil_iff]
      exact hlength
  unfold Numeral.isInteger
  rw [Bool.and_eq_false_iff]
  left
  exact List.isEmpty_eq_false_iff.2 hfraction

theorem Written.isInteger_scientific (style : FloatStyle) (negative : Bool) (digits : Text)
    (exponent : ℤ) :
    (Written.scientific style negative digits exponent).numeral.isInteger = false :=
  Bool.and_false _

/-- A positive number is written in one of the two forms, and is what its digits stand for. -/
theorem exists_written (style : FloatStyle) (negative : Bool) {m : ℕ} {q : ℤ} (hm : 0 < m)
    (hdigits : 0 < (Shortest.digits m q).1) :
    ∃ w : Written, w.IsProper ∧ w.text = style.write (.finite negative m q)
      ∧ w.negative = negative ∧ w.numeral.isInteger = false
      ∧ w.IsOf (Shortest.digits m q).1 (Shortest.digits m q).2 := by
  have hleading := isLeading_ofNat hdigits
  have hwrite : style.write (.finite negative m q)
      = FloatStyle.signed negative (style.magnitude m q) := rfl
  rw [hwrite]
  unfold FloatStyle.magnitude
  rw [if_neg hm.ne']
  simp only
  -- the digits are those of any positive number from here on
  generalize (Shortest.digits m q).1 = d at *
  generalize (Shortest.digits m q).2 = e
  split
  · rw [show e + ((Decimal.ofNat d).length : ℤ) - 1 + 1 = e + (Decimal.ofNat d).length by ring]
    refine ⟨_, Written.isProper_plain hleading negative _, Written.text_plain hleading negative _,
      ?_, Written.isInteger_plain hleading negative _, Written.isOf_plain hdigits negative e⟩
    unfold Written.plain
    split
    · rfl
    split <;> rfl
  · exact ⟨_, Written.isProper_scientific style hleading negative _,
      Written.text_scientific style negative _ _, rfl, Written.isInteger_scientific style _ _ _,
      Written.isOf_scientific style hdigits negative e⟩

/-- The value of a numeral that is not an integer. -/
theorem Numeral.value_of_not_isInteger {n : Numeral} (h : n.isInteger = false) :
    n.value (payloadDialect levels)
      = .ok (.float (Binary64.ofDecimal n.negative (Decimal.value (n.whole ++ n.fraction))
          (n.exponent.getD 0 - n.fraction.length))) := by
  have hshort : (payloadDialect levels).isTooLong n = false := by
    show (n.isInteger && _) = false
    rw [h, Bool.false_and]
  unfold Numeral.value
  rw [if_neg (by rw [hshort]; exact Bool.false_ne_true),
    if_neg (by rw [h]; exact Bool.false_ne_true)]

/-- A finite number of the format is written as a numeral whose value it is. -/
theorem exists_written_value (style : FloatStyle) {negative : Bool} {m : ℕ} {q : ℤ}
    (hcanonical : Binary64.IsCanonical (.finite negative m q)) :
    ∃ w : Written, w.IsProper ∧ w.text = style.write (.finite negative m q)
      ∧ ∀ levels, w.numeral.value (payloadDialect levels)
        = .ok (.float (.finite negative m q)) := by
  rcases Nat.eq_zero_or_pos m with rfl | hm
  · refine ⟨⟨negative, [0x30], [0x30], none⟩, ?_, rfl, fun levels => ?_⟩
    · exact ⟨allDigits_zeros 1, .inl rfl, allDigits_zeros 1, noExponent_digits⟩
    · -- zero has the lowest exponent, as its significand has no bits
      have hq : q = Binary64.minExponent := by
        rcases hcanonical.2.2.2 with hle | hq
        · exact absurd hle (by decide)
        · exact hq
      rw [hq]
      rfl
  · obtain ⟨hdigits, hrounds⟩ := Shortest.digits_roundsTo hm hcanonical
    obtain ⟨w, hproper, htext, rfl, hinteger, hpos, hvalue⟩ :=
      exists_written style negative hm hdigits
    rw [← hvalue] at hrounds
    refine ⟨w, hproper, htext, fun levels => ?_⟩
    rw [Numeral.value_of_not_isInteger hinteger]
    exact congrArg (fun x => Except.ok (Json.float x))
      (Binary64.ofDecimal_eq hpos hm hcanonical hrounds)

/-- **A written number of the format reads back.** -/
theorem readAtom_write {x : Binary64} (hx : x.IsCanonical) {rest : Text} (hrest : Delimited rest) :
    readAtom (payloadDialect levels) (floatStyle.write x ++ rest) = .ok (.float x, rest) := by
  cases x with
  | nan => rfl
  | infinity negative =>
    cases negative <;> rfl
  | finite negative m q =>
    obtain ⟨w, hproper, htext, hvalue⟩ := exists_written_value floatStyle hx
    rw [← htext, readAtom_text (payloadDialect levels) hproper hrest, hvalue]
    rfl

end EditorWire.Json
