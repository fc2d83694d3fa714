/-
  EditorWire.Proofs.CommandLine.Streams — what becomes of a line on its way to a stream.

  A result is changed in one way only: where the stream is no terminal its control
  sequences are taken out.  A line end is in no control sequence, so each result
  stays a line of its own.  A report is made of texts that hold nothing a stream
  changes, so it comes out as it was made:

      result p     →   p, or plain p, and a line end
      report m     →   a cross and m and a line end, in red on a terminal

  Main results:
    * `text_result`, `text_error` — these two.
    * `isTame_quote` — a text between quotes holds nothing that a stream changes.
-/
import EditorWire.CommandLine.Console
import EditorWire.Text.Quoted

namespace EditorWire.CommandLine

/-! ## §1. Control sequences and line ends. -/

theorem takeWhile_concat {p : Nat → Bool} {c : Nat} (hc : p c = false) (t : Text) :
    (t ++ [c]).takeWhile p = t.takeWhile p := by
  induction t with
  | nil => simp [hc]
  | cons x t ih => rw [List.cons_append, List.takeWhile_cons, List.takeWhile_cons, ih]

theorem dropWhile_concat {p : Nat → Bool} {c : Nat} (hc : p c = false) (t : Text) :
    (t ++ [c]).dropWhile p = t.dropWhile p ++ [c] := by
  induction t with
  | nil => simp [hc]
  | cons x t ih =>
    rw [List.cons_append, List.dropWhile_cons, List.dropWhile_cons, ih]
    cases p x <;> rfl

/-- Only an escape and a bracket begin a control sequence. -/
theorem controlSequence?_eq_none {t : Text}
    (h : ∀ r, t ≠ Ascii.escape :: Ascii.openBracket :: r) : controlSequence? t = none := by
  unfold controlSequence?
  split
  · exact absurd rfl (h _)
  · rfl

/-- A line end makes no control sequence. -/
theorem controlSequence?_concat (t : Text) :
    controlSequence? (t ++ [Ascii.newline]) = controlSequence? t := by
  by_cases h : ∃ r, t = Ascii.escape :: Ascii.openBracket :: r
  · obtain ⟨r, rfl⟩ := h
    simp only [List.cons_append, controlSequence?]
    rw [takeWhile_concat rfl, dropWhile_concat rfl, takeWhile_concat rfl, dropWhile_concat rfl]
    cases (r.dropWhile isParameter).dropWhile isIntermediate <;> rfl
  · rw [controlSequence?_eq_none fun r heq => h ⟨r, heq⟩, controlSequence?_eq_none]
    -- a text that begins one with the line end begins one without
    intro r heq
    match t, heq with
    | [], heq => cases heq
    | [_], heq => cases heq
    | c :: d :: t, heq =>
      obtain ⟨rfl, hd⟩ := List.cons.inj heq
      obtain ⟨rfl, -⟩ := List.cons.inj hd
      exact h ⟨t, rfl⟩

/-- A control sequence is a part of the text. -/
theorem controlSequence?_le {t : Text} {n : Nat} (h : controlSequence? t = some n) :
    n ≤ t.length := by
  unfold controlSequence? at h
  split at h
  · next r =>
    simp only at h
    split at h
    · next c s heq =>
      split at h
      · obtain rfl := Option.some.inj h
        have hr := congrArg List.length (List.takeWhile_append_dropWhile (p := isParameter) (l := r))
        have hbehind := congrArg List.length
          (List.takeWhile_append_dropWhile (p := isIntermediate) (l := r.dropWhile isParameter))
        rw [List.length_append] at hr hbehind
        rw [heq, List.length_cons] at hbehind
        simp only [List.length_cons]
        omega
      · cases h
    · cases h
  · cases h

theorem plainAfter_succ (n c : Nat) (t : Text) : plainAfter (n + 1) (c :: t) = plainAfter n t := by
  rw [plainAfter.eq_def]

theorem plainAfter_of_some {c n : Nat} {t : Text} (h : controlSequence? (c :: t) = some n) :
    plainAfter 0 (c :: t) = plainAfter (n - 1) t := by
  rw [plainAfter.eq_def]
  simp only [h]

theorem plainAfter_of_none {c : Nat} {t : Text} (h : controlSequence? (c :: t) = none) :
    plainAfter 0 (c :: t) = c :: plainAfter 0 t := by
  rw [plainAfter.eq_def]
  simp only [h]

theorem plainAfter_concat {skipped : Nat} {t : Text} (h : skipped ≤ t.length) :
    plainAfter skipped (t ++ [Ascii.newline]) = plainAfter skipped t ++ [Ascii.newline] := by
  induction t generalizing skipped with
  | nil =>
    obtain rfl := Nat.le_zero.1 h
    rfl
  | cons c t ih =>
    have hsequence := controlSequence?_concat (c :: t)
    rw [List.cons_append] at hsequence ⊢
    cases skipped with
    | succ n =>
      rw [plainAfter_succ, plainAfter_succ]
      exact ih (Nat.le_of_succ_le_succ h)
    | zero =>
      cases hfound : controlSequence? (c :: t) with
      | none =>
        rw [plainAfter_of_none (hsequence.trans hfound), plainAfter_of_none hfound,
          ih (Nat.zero_le _), List.cons_append]
      | some n =>
        have hle := controlSequence?_le hfound
        rw [List.length_cons] at hle
        rw [plainAfter_of_some (hsequence.trans hfound), plainAfter_of_some hfound]
        exact ih (by omega)

/-- The end of a line stays, whatever the line is. -/
theorem plain_concat (t : Text) : plain (t ++ [Ascii.newline]) = plain t ++ [Ascii.newline] :=
  plainAfter_concat (Nat.zero_le _)

theorem plainAfter_sublist (skipped : Nat) (t : Text) : (plainAfter skipped t).Sublist t := by
  induction t generalizing skipped with
  | nil => exact .slnil
  | cons c t ih =>
    cases skipped with
    | succ n =>
      rw [plainAfter_succ]
      exact (ih n).cons c
    | zero =>
      cases hfound : controlSequence? (c :: t) with
      | none =>
        rw [plainAfter_of_none hfound]
        exact (ih 0).cons_cons c
      | some n =>
        rw [plainAfter_of_some hfound]
        exact (ih (n - 1)).cons c

/-- Taking control sequences out adds nothing. -/
theorem plain_sublist (t : Text) : (plain t).Sublist t := plainAfter_sublist 0 t

/-- What has no escape character in front of a text stays in front of it. -/
theorem plain_append {s : Text} (h : Ascii.escape ∉ s) (t : Text) :
    plain (s ++ t) = s ++ plain t := by
  induction s with
  | nil => rfl
  | cons c s ih =>
    rw [List.mem_cons, not_or] at h
    have hnone : controlSequence? (c :: (s ++ t)) = none :=
      controlSequence?_eq_none fun r heq => h.1 (List.cons.inj heq).1.symm
    have hrest : plainAfter 0 (s ++ t) = s ++ plainAfter 0 t := ih h.2
    show plainAfter 0 (c :: (s ++ t)) = c :: (s ++ plainAfter 0 t)
    rw [plainAfter_of_none hnone, hrest]

/-! ## §2. Texts that a stream does not change. -/

/-- No line ends in the text, no control sequence begins, and no surrogate has to be shown. -/
def IsTame (t : Text) : Prop :=
  ∀ c ∈ t, c ≠ Ascii.newline ∧ c ≠ Ascii.escape ∧ ¬ IsSurrogate c

instance (t : Text) : Decidable (IsTame t) :=
  inferInstanceAs (Decidable (∀ c ∈ t, _))

theorem IsTame.append {s t : Text} (hs : IsTame s) (ht : IsTame t) : IsTame (s ++ t) :=
  List.forall_mem_append.2 ⟨hs, ht⟩

theorem IsTame.newline_not_mem {t : Text} (h : IsTame t) : Ascii.newline ∉ t :=
  fun hmem => (h _ hmem).1 rfl

theorem IsTame.escape_not_mem {t : Text} (h : IsTame t) : Ascii.escape ∉ t :=
  fun hmem => (h _ hmem).2.1 rfl

theorem isTame_of_bounds {t : Text} (h : ∀ c ∈ t, 0x20 ≤ c ∧ c < 0x80) : IsTame t := by
  intro c hc
  have hbounds := h c hc
  refine ⟨?_, ?_, fun hsurrogate => ?_⟩
  · show c ≠ 0x0A
    omega
  · show c ≠ 0x1B
    omega
  · unfold IsSurrogate at hsurrogate
    omega

theorem showSurrogates_eq_self {t : Text} (h : ∀ c ∈ t, ¬ IsSurrogate c) : showSurrogates t = t := by
  induction t with
  | nil => rfl
  | cons c t ih =>
    obtain ⟨hc, ht⟩ := List.forall_mem_cons.1 h
    unfold showSurrogates at ih ⊢
    rw [List.flatMap_cons, if_neg hc, ih ht]
    rfl

/-! ## §3. Texts between quotes. -/

theorem isTame_lower (width n : Nat) : IsTame (Hexadecimal.lower width n) := by
  induction width generalizing n with
  | zero => exact fun c hc => absurd hc List.not_mem_nil
  | succ width ih =>
    refine (ih (n / 16)).append ?_
    have hdigits : ∀ m < 16, IsTame [CodePoint.lowerHexDigit m] := by decide
    exact hdigits _ (Nat.mod_lt n (by decide))

theorem isTame_numericEscape (c : Nat) : IsTame (Quoted.numericEscape c) := by
  unfold Quoted.numericEscape
  split
  · exact IsTame.append (by decide) (isTame_lower 2 c)
  split
  · exact IsTame.append (by decide) (isTame_lower 4 c)
  · exact IsTame.append (by decide) (isTame_lower 8 c)

/-- Line ends, escape characters and surrogates are not shown as they are. -/
theorem isTame_of_printable {c : Nat} (h : isUnprintable c = false) : IsTame [c] := by
  have hrange : ∀ range ∈ unprintableRanges, ¬ (range.1 ≤ c ∧ c ≤ range.2) := by
    intro range hrange hc
    refine absurd (List.any_eq_true.2 ⟨range, hrange, ?_⟩) (Bool.eq_false_iff.1 h)
    simpa using hc
  have hcontrol := hrange (0x0, 0x1F) (by decide)
  have hsurrogate := hrange (0xD7FC, 0xF8FF) (by decide)
  rw [IsTame, List.forall_mem_singleton]
  refine ⟨?_, ?_, ?_⟩
  · show c ≠ 0x0A
    omega
  · show c ≠ 0x1B
    omega
  · unfold IsSurrogate
    omega

/-- **A text between quotes is tame**, whatever the text is. -/
theorem isTame_quote (t : Text) : IsTame (Quoted.quote t) := by
  have hmark : Quoted.mark t = Ascii.apostrophe ∨ Quoted.mark t = Ascii.quote := by
    unfold Quoted.mark
    split
    · exact .inr rfl
    · exact .inl rfl
  have hmarkTame : IsTame [Quoted.mark t] := by
    rcases hmark with h | h <;> rw [h] <;> decide
  have hpoint : ∀ c, IsTame (Quoted.escapePoint (Quoted.mark t) c) := by
    intro c
    unfold Quoted.escapePoint
    split
    · next hc =>
      rw [Bool.or_eq_true, beq_iff_eq, beq_iff_eq] at hc
      rcases hc with rfl | rfl
      · exact IsTame.append (s := [Ascii.backslash]) (by decide) hmarkTame
      · decide
    split
    · decide
    split
    · decide
    split
    · decide
    split
    · exact isTame_numericEscape c
    · next hprintable => exact isTame_of_printable (Bool.eq_false_iff.2 hprintable)
  have hbody : IsTame (t.flatMap (Quoted.escapePoint (Quoted.mark t))) := by
    intro c hc
    obtain ⟨x, -, hx⟩ := List.mem_flatMap.1 hc
    exact hpoint x c hx
  exact hmarkTame.append (hbody.append hmarkTame)

/-- Behind a tame text any text can be quoted. -/
theorem IsTame.append_quote {s : Text} (h : IsTame s) (t : Text) :
    IsTame (s ++ Quoted.quote t) :=
  h.append (isTame_quote t)

/-! ## §4. Lines. -/

/-- The text as a line of its own. -/
def ended (t : Text) : Text := t ++ [Ascii.newline]

theorem length_ended (t : Text) : (ended t).length = t.length + 1 := List.length_append

/-- A result as the output stream shows it. -/
def shown (color : Bool) (t : Text) : Text := if color then t else plain t

/-- A result is a line of its own. -/
theorem text_result (color : Bool) (t : Text) :
    (Line.result t).text color = ended (shown color t) := by
  unfold shown
  cases color with
  | true => rfl
  | false => exact plain_concat t

theorem isScalar_shown (color : Bool) {t : Text} (h : Text.IsScalar t) :
    Text.IsScalar (shown color t) := by
  unfold shown
  split
  · exact h
  · exact fun c hc => h c ((plain_sublist t).subset hc)

/-- The line that reports a failure. -/
def reportText (color : Bool) (message : Text) : Text :=
  let line := Text.ofString "❌ " ++ message
  ended (if color then withAttribute 31 line else line)

theorem attributeCode_red : attributeCode 31 = [0x1B, 0x5B, 0x33, 0x31, 0x6D] := by cbv

theorem attributeCode_end : attributeCode 0 = [0x1B, 0x5B, 0x30, 0x6D] := by cbv

/-- The attributes of a report are taken out where there is no terminal. -/
theorem plain_attributes (t : Text) :
    plain (attributeCode 31 ++ t) = plain t ∧ plain (attributeCode 0 ++ t) = plain t := by
  rw [attributeCode_red, attributeCode_end]
  exact ⟨rfl, rfl⟩

/-- A tame message is reported as it is. -/
theorem text_error (color : Bool) {message : Text} (h : IsTame message) :
    showSurrogates ((Line.error message).text color) = reportText color message := by
  have hline : IsTame (Text.ofString "❌ " ++ message) := IsTame.append (by decide) h
  have hshown : ∀ c ∈ reportText color message, ¬ IsSurrogate c := by
    have hred : ∀ c ∈ attributeCode 31, ¬ IsSurrogate c := by
      rw [attributeCode_red]
      decide
    have hend : ∀ c ∈ attributeCode 0, ¬ IsSurrogate c := by
      rw [attributeCode_end]
      decide
    have hbody : ∀ c ∈ Text.ofString "❌ " ++ message, ¬ IsSurrogate c :=
      fun c hc => (hline c hc).2.2
    have hnewline : ∀ c ∈ [Ascii.newline], ¬ IsSurrogate c := by decide
    unfold reportText ended withAttribute
    cases color with
    | true =>
      simp only [if_true, List.forall_mem_append]
      exact ⟨⟨⟨hred, List.forall_mem_append.1 hbody⟩, hend⟩, hnewline⟩
    | false =>
      exact List.forall_mem_append.2 ⟨hbody, hnewline⟩
  have htext : (Line.error message).text color = reportText color message := by
    cases color with
    | true => rfl
    | false =>
      calc (Line.error message).text false
          = plain (attributeCode 31 ++ (Text.ofString "❌ " ++ message)
              ++ attributeCode 0 ++ [Ascii.newline]) := rfl
        _ = plain (attributeCode 31 ++ (Text.ofString "❌ " ++ message
              ++ (attributeCode 0 ++ [Ascii.newline]))) := by simp only [List.append_assoc]
        _ = Text.ofString "❌ " ++ message ++ plain (attributeCode 0 ++ [Ascii.newline]) := by
          rw [(plain_attributes _).1, plain_append hline.escape_not_mem]
        _ = reportText false message := by
          rw [(plain_attributes _).2]
          rfl
  rw [htext]
  exact showSurrogates_eq_self hshown

end EditorWire.CommandLine
