/-
  EditorWire.Proofs.Text.Utf8 — UTF-8 is one form for each text.

  `decode` takes a sequence at a time, so both directions are settled for one
  code point in front of any rest:

      decode (encodePoint c ++ r)   = c, then decode r          for a scalar c
      decode octets                 = c, then …                 only if octets start
                                                                with encodePoint c

  Main result:
    * `decode?_eq_some_iff` — the strict decoder reads `t` exactly from the octets
      `t` is encoded to, and only texts of scalar values are read.
-/
import EditorWire.Proofs.Result
import EditorWire.Text.Utf8
import Mathlib.Data.List.TakeWhile

namespace EditorWire

namespace Text

variable {ε : Type} {decode : Octets → Except ε Text} {encodePoint : Nat → Octets}

/-- Where each scalar value is read back in front of anything, so is a text of them. -/
theorem decode_flatMap_append
    (hpoint : ∀ c, EditorWire.IsScalar c → ∀ r, decode (encodePoint c ++ r)
      = (decode r).map (c :: ·)) {t : Text} (ht : IsScalar t) (r : Octets) :
    decode (t.flatMap encodePoint ++ r) = (decode r).map (t ++ ·) := by
  induction t with
  | nil =>
    show decode r = _
    cases decode r <;> rfl
  | cons c t ih =>
    obtain ⟨hc, ht⟩ := List.forall_mem_cons.1 ht
    rw [List.flatMap_cons, List.append_assoc, hpoint c hc, ih ht]
    cases decode r <;> rfl

theorem decode_flatMap
    (hpoint : ∀ c, EditorWire.IsScalar c → ∀ r, decode (encodePoint c ++ r)
      = (decode r).map (c :: ·)) (hnil : decode [] = .ok []) {t : Text} (ht : IsScalar t) :
    decode (t.flatMap encodePoint) = .ok t := by
  have h := decode_flatMap_append hpoint ht []
  rw [List.append_nil, hnil] at h
  rw [h]
  exact congrArg Except.ok (List.append_nil t)

end Text

namespace Utf8

/-! ## §1. One sequence in front of a rest. -/

/-- Every code point has an octet at least. -/
theorem encodePoint_ne_nil (c : Nat) : encodePoint c ≠ [] := by
  unfold encodePoint
  split
  · exact List.cons_ne_nil _ _
  split
  · exact List.cons_ne_nil _ _
  split
  · exact List.cons_ne_nil _ _
  · exact List.cons_ne_nil _ _

theorem decode_one (s : Bool) {a : Nat} (ha : a < 0x80) (r : Octets) :
    decode s (a :: r) = (decode s r).map (a :: ·) := by
  rw [decode.eq_def]
  simp only [if_pos ha]

theorem decode_two (s : Bool) {a b : Nat} (ha : 0xC2 ≤ a) (ha' : a < 0xE0)
    (hb : isTail b = true) (r : Octets) :
    decode s (a :: b :: r) = (decode s r).map (point2 a b :: ·) := by
  rw [decode.eq_def]
  simp only [if_neg (show ¬ a < 0x80 by omega), if_neg (show ¬ a < 0xC2 by omega),
    if_pos ha', hb, if_true]

theorem decode_three (s : Bool) {a b c : Nat} (ha : 0xE0 ≤ a) (ha' : a < 0xF0)
    (hb : isSecondOfThree a b = true) (hc : isTail c = true) (r : Octets) :
    decode s (a :: b :: c :: r) = (decode s r).map (point3 a b c :: ·) := by
  rw [decode.eq_def]
  simp only [if_neg (show ¬ a < 0x80 by omega), if_neg (show ¬ a < 0xC2 by omega),
    if_neg (show ¬ a < 0xE0 by omega), if_pos ha', hb, hc, Bool.not_true,
    Bool.false_eq_true, if_false, ite_self]

theorem decode_four (s : Bool) {a b c d : Nat} (ha : 0xF0 ≤ a) (ha' : a < 0xF5)
    (hb : isSecondOfFour a b = true) (hc : isTail c = true) (hd : isTail d = true)
    (r : Octets) :
    decode s (a :: b :: c :: d :: r) = (decode s r).map (point4 a b c d :: ·) := by
  rw [decode.eq_def]
  simp only [if_neg (show ¬ a < 0x80 by omega), if_neg (show ¬ a < 0xC2 by omega),
    if_neg (show ¬ a < 0xE0 by omega), if_neg (show ¬ a < 0xF0 by omega), if_pos ha',
    hb, hc, hd, Bool.not_true, Bool.false_eq_true, if_false]

/-- A scalar value is read back, whatever follows its octets. -/
theorem decode_encodePoint_append (s : Bool) {c : Nat} (hc : IsScalar c) (r : Octets) :
    decode s (encodePoint c ++ r) = (decode s r).map (c :: ·) := by
  unfold IsScalar at hc
  unfold encodePoint
  -- every octet but the first holds six bits behind the mark of a tail
  have htail : ∀ n, isTail (0x80 + n % 0x40) = true := by
    intro n
    simp only [isTail, Bool.and_eq_true, decide_eq_true_eq]
    omega
  split
  · next h1 => exact decode_one s h1 r
  split
  · next h1 h2 =>
    have hpoint : point2 (0xC0 + c / 0x40) (0x80 + c % 0x40) = c := by
      unfold point2; omega
    show decode s (_ :: _ :: r) = _
    rw [decode_two s (by omega) (by omega) (htail c), hpoint]
  split
  · next h1 h2 h3 =>
    have hpoint : point3 (0xE0 + c / 0x1000) (0x80 + c / 0x40 % 0x40) (0x80 + c % 0x40) = c := by
      unfold point3; omega
    have hsecond : isSecondOfThree (0xE0 + c / 0x1000) (0x80 + c / 0x40 % 0x40) = true := by
      simp only [isSecondOfThree, htail, Bool.true_and, Bool.and_eq_true, Bool.not_eq_true',
        Bool.and_eq_false_iff, beq_eq_false_iff_ne, decide_eq_false_iff_not]
      omega
    show decode s (_ :: _ :: _ :: r) = _
    rw [decode_three s (by omega) (by omega) hsecond (htail c), hpoint]
  · next h1 h2 h3 =>
    have hpoint : point4 (0xF0 + c / 0x40000) (0x80 + c / 0x1000 % 0x40)
        (0x80 + c / 0x40 % 0x40) (0x80 + c % 0x40) = c := by
      unfold point4; omega
    have hsecond : isSecondOfFour (0xF0 + c / 0x40000) (0x80 + c / 0x1000 % 0x40) = true := by
      simp only [isSecondOfFour, htail, Bool.true_and, Bool.and_eq_true, Bool.not_eq_true',
        Bool.and_eq_false_iff, beq_eq_false_iff_ne, decide_eq_false_iff_not]
      omega
    show decode s (_ :: _ :: _ :: _ :: r) = _
    rw [decode_four s (by omega) (by omega) hsecond (htail _) (htail c), hpoint]

/-- **Reading undoes writing**, for a text of scalar values in front of anything. -/
theorem decode_encode_append (s : Bool) {t : Text} (ht : Text.IsScalar t) (r : Octets) :
    decode s (encode t ++ r) = (decode s r).map (t ++ ·) :=
  Text.decode_flatMap_append (fun _ hc => decode_encodePoint_append s hc) ht r

/-! ## §2. What a sequence that is read looks like. -/

/-- A code point and its octets. -/
def Spells (c : Nat) (octets : Octets) : Prop := IsScalar c ∧ encodePoint c = octets

theorem spells_point2 {a b : Nat} (ha : 0xC2 ≤ a) (ha' : a < 0xE0) (hb : isTail b = true) :
    Spells (point2 a b) [a, b] := by
  simp only [isTail, Bool.and_eq_true, decide_eq_true_eq] at hb
  have hlow : 0x80 ≤ point2 a b := by unfold point2; omega
  have hhigh : point2 a b < 0x800 := by unfold point2; omega
  have h1 : 0xC0 + point2 a b / 0x40 = a := by unfold point2; omega
  have h2 : 0x80 + point2 a b % 0x40 = b := by unfold point2; omega
  refine ⟨.inl (by omega), ?_⟩
  rw [encodePoint, if_neg (by omega), if_pos hhigh, h1, h2]

theorem spells_point3 {a b c : Nat} (ha : 0xE0 ≤ a) (ha' : a < 0xF0)
    (hb : isSecondOfThree a b = true) (hc : isTail c = true) :
    Spells (point3 a b c) [a, b, c] := by
  simp only [isSecondOfThree, isTail, Bool.and_eq_true, decide_eq_true_eq, Bool.not_eq_true',
    Bool.and_eq_false_iff, beq_eq_false_iff_ne, decide_eq_false_iff_not] at hb hc
  -- the second octet is bounded so that no shorter form and no surrogate is spelled
  have hlow : 0x800 ≤ point3 a b c := by unfold point3; omega
  have hhigh : point3 a b c < 0x10000 := by unfold point3; omega
  have h1 : 0xE0 + point3 a b c / 0x1000 = a := by unfold point3; omega
  have h2 : 0x80 + point3 a b c / 0x40 % 0x40 = b := by unfold point3; omega
  have h3 : 0x80 + point3 a b c % 0x40 = c := by unfold point3; omega
  refine ⟨?_, ?_⟩
  · unfold IsScalar point3; omega
  · rw [encodePoint, if_neg (by omega), if_neg (by omega), if_pos hhigh, h1, h2, h3]

theorem spells_point4 {a b c d : Nat} (ha : 0xF0 ≤ a) (ha' : a < 0xF5)
    (hb : isSecondOfFour a b = true) (hc : isTail c = true) (hd : isTail d = true) :
    Spells (point4 a b c d) [a, b, c, d] := by
  simp only [isSecondOfFour, isTail, Bool.and_eq_true, decide_eq_true_eq, Bool.not_eq_true',
    Bool.and_eq_false_iff, beq_eq_false_iff_ne, decide_eq_false_iff_not] at hb hc hd
  have hlow : 0x10000 ≤ point4 a b c d := by unfold point4; omega
  have h1 : 0xF0 + point4 a b c d / 0x40000 = a := by unfold point4; omega
  have h2 : 0x80 + point4 a b c d / 0x1000 % 0x40 = b := by unfold point4; omega
  have h3 : 0x80 + point4 a b c d / 0x40 % 0x40 = c := by unfold point4; omega
  have h4 : 0x80 + point4 a b c d % 0x40 = d := by unfold point4; omega
  refine ⟨?_, ?_⟩
  · unfold IsScalar point4; omega
  · rw [encodePoint, if_neg (by omega), if_neg (by omega), if_neg (by omega), h1, h2, h3, h4]

/-- A text whose first code point is spelled by the octets in front. -/
theorem spelled_cons {c : Nat} {t : Text} {front rest : Octets} (hc : Spells c front)
    (ht : Text.IsScalar t ∧ encode t = rest) :
    Text.IsScalar (c :: t) ∧ encode (c :: t) = front ++ rest := by
  obtain ⟨hscalar, hfront⟩ := hc
  refine ⟨?_, ?_⟩
  · intro x hx
    rcases List.mem_cons.1 hx with rfl | hx
    · exact hscalar
    · exact ht.1 x hx
  · show encodePoint c ++ encode t = front ++ rest
    rw [hfront, ht.2]

/-- What the strict decoder reads is a text of scalar values, and the octets are its form. -/
theorem encode_of_decode {octets : Octets} {t : Text} (h : decode false octets = .ok t) :
    Text.IsScalar t ∧ encode t = octets := by
  -- the cases are those of the decoder; all but one for each length of a sequence end in a fault
  fun_induction decode false octets generalizing t with
  | case1 =>
    cases h
    exact ⟨fun c hc => absurd hc List.not_mem_nil, rfl⟩
  | case2 a r ha ih =>
    obtain ⟨t', ht', rfl⟩ := Result.map_eq_ok_iff.1 h
    have hspells : Spells a [a] := ⟨.inl (by omega), by rw [encodePoint, if_pos ha]⟩
    exact spelled_cons hspells (ih ht')
  | case5 a _ _ ha b r hb ih =>
    obtain ⟨t', ht', rfl⟩ := Result.map_eq_ok_iff.1 h
    exact spelled_cons (spells_point2 (by omega) ha hb) (ih ht')
  | case10 a _ _ _ _ b c r hs => simp at hs
  | case13 a _ _ _ ha b c r _ hb hc ih =>
    obtain ⟨t', ht', rfl⟩ := Result.map_eq_ok_iff.1 h
    simp only [Bool.not_eq_true', Bool.not_eq_false] at hb hc
    exact spelled_cons (spells_point3 (by omega) ha hb hc) (ih ht')
  | case23 a _ _ _ _ ha b c d r hb hc hd ih =>
    obtain ⟨t', ht', rfl⟩ := Result.map_eq_ok_iff.1 h
    simp only [Bool.not_eq_true', Bool.not_eq_false] at hb hc hd
    exact spelled_cons (spells_point4 (by omega) ha hb hc hd) (ih ht')
  | _ => cases h

/-- The strict encoder has a fault to report unless all is scalar values. -/
theorem firstSurrogates?_eq_none_iff {t : Text} :
    firstSurrogates? t = none ↔ Text.IsScalar t := by
  have hdrop : firstSurrogates? t = none ↔ t.dropWhile (fun c => decide (IsScalar c)) = [] := by
    unfold firstSurrogates? Text.cutAt
    simp only [Bool.not_not]
    split
    · next h => simp [h]
    · next h => simp [h]
  rw [hdrop, List.dropWhile_eq_nil_iff]
  simp only [decide_eq_true_eq]
  exact Iff.rfl

/-- A text of scalar values is written in octets. -/
theorem encode_lt {t : Text} (ht : Text.IsScalar t) : ∀ b ∈ encode t, b < 256 := by
  intro b hb
  obtain ⟨c, hc, hb⟩ := List.mem_flatMap.1 hb
  have hscalar : EditorWire.IsScalar c := ht c hc
  unfold EditorWire.IsScalar at hscalar
  unfold encodePoint at hb
  split at hb
  · simp only [List.mem_singleton] at hb; omega
  split at hb
  · simp only [List.mem_cons, List.not_mem_nil, or_false] at hb; omega
  split at hb
  · simp only [List.mem_cons, List.not_mem_nil, or_false] at hb; omega
  · simp only [List.mem_cons, List.not_mem_nil, or_false] at hb; omega

/-- **UTF-8 is one form for each text**: the strict decoder reads a text from its own octets
and from no others, and the texts it reads are those of scalar values. -/
theorem decode?_eq_some_iff {octets : Octets} {t : Text} :
    decode? octets = some t ↔ Text.IsScalar t ∧ encode t = octets := by
  rw [decode?, Result.toOption_eq_some_iff]
  constructor
  · exact encode_of_decode
  · rintro ⟨ht, rfl⟩
    have h := decode_encode_append false ht []
    simpa [decode, Except.map] using h

/-- An octet of ASCII in front is the first code point. -/
theorem exists_of_encode_eq_cons {t : Text} (ht : Text.IsScalar t) {a : Nat} (ha : a < 0x80)
    {octets : Octets} (h : encode t = a :: octets) :
    ∃ r, t = a :: r ∧ Text.IsScalar r ∧ encode r = octets := by
  have hread := decode?_eq_some_iff.2 ⟨ht, h⟩
  rw [decode?, Result.toOption_eq_some_iff, decode_one false ha, Result.map_eq_ok_iff] at hread
  obtain ⟨r, hr, rfl⟩ := hread
  exact ⟨r, rfl, encode_of_decode hr⟩

end Utf8

end EditorWire
