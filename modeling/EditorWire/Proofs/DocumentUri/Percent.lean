/-
  EditorWire.Proofs.DocumentUri.Percent — what a written path stands for.

  `StandsFor` says it by rules, one for each way a written path can begin:

      % a b …   the octet of the two hexadecimal digits, then …
      c …       the UTF-8 octets of any other code point, then …

  Main results:
    * `decode?_eq_some_iff` — the decoder finds exactly what the rules say.
    * `exists_standsFor_iff` — the rules apply exactly if every percent sign is
      followed by two hexadecimal digits.
-/
import EditorWire.DocumentUri.Percent
import EditorWire.Proofs.Text.Utf8

namespace EditorWire.Percent

/-! ## §1. The rules. -/

/-- A written path and the octets it stands for. -/
inductive StandsFor : Text → Octets → Prop where
  /-- Nothing stands for nothing. -/
  | nil : StandsFor [] []
  /-- Two hexadecimal digits behind a percent sign stand for an octet. -/
  | escape {a b high low : Nat} {r : Text} {octets : Octets} :
      CodePoint.hexValue? a = some high → CodePoint.hexValue? b = some low →
      StandsFor r octets → StandsFor (Ascii.percent :: a :: b :: r) ((high * 16 + low) :: octets)
  /-- Every other code point stands for its own octets. -/
  | plain {c : Nat} {r : Text} {octets : Octets} :
      c ≠ Ascii.percent → StandsFor r octets → StandsFor (c :: r) (Utf8.encodePoint c ++ octets)

/-- Every percent sign of the text is followed by two hexadecimal digits. -/
def EscapesAreWhole (p : Text) : Prop :=
  ∀ before after, p = before ++ Ascii.percent :: after →
    ∃ a b r, after = a :: b :: r ∧ CodePoint.isHexDigit a = true ∧ CodePoint.isHexDigit b = true

/-! ## §2. The decoder follows the rules. -/

theorem decode?_escape {a b high low : Nat} (ha : CodePoint.hexValue? a = some high)
    (hb : CodePoint.hexValue? b = some low) (r : Text) :
    decode? (Ascii.percent :: a :: b :: r) = (decode? r).map ((high * 16 + low) :: ·) := by
  rw [decode?.eq_def]
  simp only [if_true, ha, hb]

/-- The decoder finds what the rules say. -/
theorem decode?_of_standsFor {p : Text} {octets : Octets} (h : StandsFor p octets) :
    decode? p = some octets := by
  induction h with
  | nil => rfl
  | escape ha hb _ ih => rw [decode?_escape ha hb, ih]; rfl
  | plain hc _ ih => rw [decode?_cons_of_ne hc, ih]; rfl

/-- The rules say what the decoder finds. -/
theorem standsFor_of_decode? {p : Text} {octets : Octets} (h : decode? p = some octets) :
    StandsFor p octets := by
  fun_induction decode? p generalizing octets with
  | case1 =>
    cases h
    exact .nil
  | case2 a b r high low hb ha ih =>
    obtain ⟨rest, hrest, rfl⟩ := Option.map_eq_some_iff.1 h
    exact .escape ha hb (ih hrest)
  | case3 => cases h
  | case4 => cases h
  | case5 c r hc ih =>
    obtain ⟨rest, hrest, rfl⟩ := Option.map_eq_some_iff.1 h
    exact .plain hc (ih hrest)

/-- **The decoder is the rules.** -/
theorem decode?_eq_some_iff {p : Text} {octets : Octets} :
    decode? p = some octets ↔ StandsFor p octets :=
  ⟨standsFor_of_decode?, decode?_of_standsFor⟩

/-- A path that is not empty stands for an octet at least. -/
theorem StandsFor.ne_nil {p : Text} {octets : Octets} (h : StandsFor p octets) (hp : p ≠ []) :
    octets ≠ [] := by
  cases h with
  | nil => exact absurd rfl hp
  | escape => exact List.cons_ne_nil _ _
  | plain => exact List.append_ne_nil_of_left_ne_nil (Utf8.encodePoint_ne_nil _) _

/-! ## §3. When the rules apply. -/

theorem EscapesAreWhole.tail {c : Nat} {r : Text} (h : EscapesAreWhole (c :: r)) :
    EscapesAreWhole r :=
  fun before after hr => h (c :: before) after (by rw [hr]; rfl)

/-- A hexadecimal digit is no percent sign. -/
theorem ne_percent_of_isHexDigit {c : Nat} (h : CodePoint.isHexDigit c = true) :
    c ≠ Ascii.percent := by
  rintro rfl
  exact absurd h (by decide)

theorem escapesAreWhole_of_standsFor {p : Text} {octets : Octets} (h : StandsFor p octets) :
    EscapesAreWhole p := by
  induction h with
  | nil =>
    intro before after heq
    simp at heq
  | @escape a b high low r octets ha hb _ ih =>
    have ha' := CodePoint.isHexDigit_of_hexValue? ha
    have hb' := CodePoint.isHexDigit_of_hexValue? hb
    intro before after heq
    -- the percent sign is the one in front, or one behind the two digits
    rcases before with _ | ⟨x, _ | ⟨y, _ | ⟨z, before⟩⟩⟩
    · simp only [List.nil_append, List.cons.injEq, true_and] at heq
      exact ⟨a, b, r, heq.symm, ha', hb'⟩
    · simp only [List.cons_append, List.nil_append, List.cons.injEq] at heq
      exact absurd heq.2.1 (ne_percent_of_isHexDigit ha')
    · simp only [List.cons_append, List.nil_append, List.cons.injEq] at heq
      exact absurd heq.2.2.1 (ne_percent_of_isHexDigit hb')
    · simp only [List.cons_append, List.cons.injEq] at heq
      exact ih before after heq.2.2.2
  | @plain c r octets hc _ ih =>
    intro before after heq
    cases before with
    | nil =>
      simp only [List.nil_append, List.cons.injEq] at heq
      exact absurd heq.1 hc
    | cons x before =>
      simp only [List.cons_append, List.cons.injEq] at heq
      exact ih before after heq.2

theorem exists_standsFor_of_escapesAreWhole {p : Text} (h : EscapesAreWhole p) :
    ∃ octets, StandsFor p octets := by
  fun_induction decode? p with
  | case1 => exact ⟨[], .nil⟩
  | case2 a b r high low hb ha ih =>
    obtain ⟨octets, hoctets⟩ := ih h.tail.tail.tail
    exact ⟨_, .escape ha hb hoctets⟩
  -- a sign that is not followed by two digits is where the decoder gives up
  | case3 a b r hnone =>
    obtain ⟨a', b', r', heq, ha, hb⟩ := h [] (a :: b :: r) rfl
    simp only [List.cons.injEq] at heq
    obtain ⟨rfl, rfl, rfl⟩ := heq
    obtain ⟨high, hhigh⟩ := Option.isSome_iff_exists.1 ha
    obtain ⟨low, hlow⟩ := Option.isSome_iff_exists.1 hb
    exact absurd hlow (fun hlow => hnone high low hhigh hlow)
  | case4 r hshort =>
    obtain ⟨a, b, r', rfl, -, -⟩ := h [] r rfl
    exact absurd rfl (hshort a b r')
  | case5 c r hc ih =>
    obtain ⟨octets, hoctets⟩ := ih h.tail
    exact ⟨_, .plain hc hoctets⟩

/-- **The rules apply exactly to paths without a broken escape.** -/
theorem exists_standsFor_iff {p : Text} : (∃ octets, StandsFor p octets) ↔ EscapesAreWhole p :=
  ⟨fun ⟨_, h⟩ => escapesAreWhole_of_standsFor h, exists_standsFor_of_escapesAreWhole⟩

end EditorWire.Percent
