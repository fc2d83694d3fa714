/-
  EditorWire.Proofs.Text.Encoding — octets say which encoding they are in.

  The encodings are inverted one code point at a time, and detection looks at four
  octets at most.  A text that starts with a code point of ASCII other than NUL and
  goes on with none that is NUL has these in front, `x` and `y` not both zero:

      UTF-8       c  x …                      UTF-8, marked       EF BB BF …
      UTF-16      c  00  x  y …               UTF-16, marked      FF FE x y …
                  00 c …                                          FE FF …
      UTF-32      c  00 00 00 …               UTF-32, marked      FF FE 00 00 …
                  00 00 00 c …                                    00 00 FE FF …

  Main result:
    * `decodeDetected_spell` — such a text is read from its octets, whatever the
      encoding and with a mark or without.
-/
import EditorWire.Json.Payload
import EditorWire.Proofs.Text.Utf8

namespace EditorWire

/-! ## §1. UTF-16. -/

namespace Utf16

variable (order : ByteOrder)

/-- A unit is two octets, of which it is made again. -/
theorem exists_encodeUnit (n : Nat) :
    ∃ a b, encodeUnit order n = [a, b] ∧ unit order a b = n := by
  cases order with
  | little =>
    refine ⟨n % 0x100, n / 0x100, rfl, ?_⟩
    show n / 0x100 * 0x100 + n % 0x100 = n
    omega
  | big =>
    refine ⟨n / 0x100, n % 0x100, rfl, ?_⟩
    show n / 0x100 * 0x100 + n % 0x100 = n
    omega

/-- A unit that begins no pair is a code point by itself. -/
theorem decode_unit {n : Nat} (hn : isHighSurrogate n = false) (r : Octets) :
    decode order (encodeUnit order n ++ r) = (decode order r).map (n :: ·) := by
  obtain ⟨a, b, heq, hunit⟩ := exists_encodeUnit order n
  rw [heq]
  show decode order (a :: b :: r) = _
  rw [decode.eq_def]
  simp only [hunit, hn, Bool.false_and, Bool.false_eq_true, if_false]
  split
  · rfl
  · rfl

/-- Two units that are a pair are the code point of the pair. -/
theorem decode_pair {high low : Nat} (hhigh : isHighSurrogate high = true)
    (hlow : isLowSurrogate low = true) (r : Octets) :
    decode order (encodeUnit order high ++ (encodeUnit order low ++ r))
      = (decode order r).map (joinSurrogates high low :: ·) := by
  obtain ⟨a, b, heq, hunit⟩ := exists_encodeUnit order high
  obtain ⟨c, d, heq', hunit'⟩ := exists_encodeUnit order low
  rw [heq, heq']
  show decode order (a :: b :: c :: d :: r) = _
  rw [decode.eq_def]
  simp only [hunit, hunit', hhigh, hlow, Bool.and_self, if_true]

/-- A scalar value is read back, whatever follows its octets. -/
theorem decode_units_append {c : Nat} (hc : IsScalar c) (r : Octets) :
    decode order ((units c).flatMap (encodeUnit order) ++ r) = (decode order r).map (c :: ·) := by
  unfold IsScalar at hc
  unfold units
  split
  · -- a unit by itself, and no surrogate
    have hhigh : isHighSurrogate c = false := by
      simp only [isHighSurrogate, Bool.and_eq_false_iff, decide_eq_false_iff_not]
      omega
    rw [List.flatMap_singleton, decode_unit order hhigh]
  · have hhigh : isHighSurrogate (0xD800 + (c - 0x10000) / 0x400) = true := by
      simp only [isHighSurrogate, Bool.and_eq_true, decide_eq_true_eq]
      omega
    have hlow : isLowSurrogate (0xDC00 + (c - 0x10000) % 0x400) = true := by
      simp only [isLowSurrogate, Bool.and_eq_true, decide_eq_true_eq]
      omega
    have hjoin : joinSurrogates (0xD800 + (c - 0x10000) / 0x400)
        (0xDC00 + (c - 0x10000) % 0x400) = c := by
      unfold joinSurrogates
      omega
    rw [List.flatMap_cons, List.flatMap_singleton, List.append_assoc,
      decode_pair order hhigh hlow, hjoin]

end Utf16

/-! ## §2. UTF-32. -/

namespace Utf32

/-- A scalar value is read back, whatever follows its octets. -/
theorem decode_encodePoint_append (order : ByteOrder) {c : Nat} (hc : IsScalar c) (r : Octets) :
    decode order (encodePoint order c ++ r) = (decode order r).map (c :: ·) := by
  have hlt : c < 0x110000 := by
    unfold IsScalar at hc
    omega
  have hunit : ((c / 0x1000000 * 0x100 + c / 0x10000 % 0x100) * 0x100 + c / 0x100 % 0x100) * 0x100
      + c % 0x100 = c := by
    omega
  cases order with
  | little =>
    show decode .little (c % 0x100 :: c / 0x100 % 0x100 :: c / 0x10000 % 0x100 ::
      c / 0x1000000 :: r) = _
    rw [decode, show unit .little _ _ _ _ = c from hunit, if_pos hlt]
  | big =>
    show decode .big (c / 0x1000000 :: c / 0x10000 % 0x100 :: c / 0x100 % 0x100 ::
      c % 0x100 :: r) = _
    rw [decode, show unit .big _ _ _ _ = c from hunit, if_pos hlt]

end Utf32

/-! ## §3. All encodings. -/

namespace Encoding

open Json (byteOrderMark)

theorem decode_encode (e : Encoding) (before : Nat) {t : Text} (ht : Text.IsScalar t) :
    e.decode before (e.encode t) = .ok t := by
  cases e with
  | utf8 =>
    exact Result.mapError_eq_ok_iff.2
      (Text.decode_flatMap (fun _ hc => Utf8.decode_encodePoint_append true hc) rfl ht)
  | utf16 order =>
    exact Result.mapError_eq_ok_iff.2
      (Text.decode_flatMap (fun _ hc => Utf16.decode_units_append order hc) rfl ht)
  | utf32 order =>
    exact Result.mapError_eq_ok_iff.2
      (Text.decode_flatMap (fun _ hc => Utf32.decode_encodePoint_append order hc) rfl ht)

/-- A code point in front is encoded by itself. -/
theorem encode_cons (e : Encoding) (c : Nat) (t : Text) :
    e.encode (c :: t) = e.encode [c] ++ e.encode t := by
  have happend : ∀ f : Nat → Octets, (c :: t).flatMap f = [c].flatMap f ++ t.flatMap f := by
    intro f
    rw [List.flatMap_cons, List.flatMap_singleton]
  cases e with
  | utf8 => exact happend _
  | utf16 order => exact happend fun x => (Utf16.units x).flatMap (Utf16.encodeUnit order)
  | utf32 order => exact happend _

/-! ## §4. Detection. -/

theorem detect_one (a : Nat) : detect [a] = (.utf8, 0) := by
  unfold detect
  split
  iterate 7
    · next heq => cases heq
  · rfl

theorem detect_two {a : Nat} (ha : a < 0xEF) (b : Nat) :
    detect [a, b]
      = if a = 0 then (.utf16 .big, 0)
        else if b = 0 then (.utf16 .little, 0)
        else (.utf8, 0) := by
  unfold detect
  split
  -- the marks of UTF-32 are longer, those of UTF-16 and UTF-8 start from `EF` on
  · next heq => cases heq
  · next heq => cases heq
  · next heq => exact absurd (List.cons.inj heq).1 (by omega)
  · next heq => exact absurd (List.cons.inj heq).1 (by omega)
  · next heq => cases heq
  · next heq => cases heq
  · next heq =>
    cases heq
    rfl
  · next h => exact absurd rfl (h _ _)

theorem detect_three {a : Nat} (ha : a < 0xEF) (b c : Nat) : detect [a, b, c] = (.utf8, 0) := by
  unfold detect
  split
  · next heq => cases heq
  · next heq => cases heq
  iterate 3
    · next heq => exact absurd (List.cons.inj heq).1 (by omega)
  · next heq => cases heq
  · next heq => cases heq
  · rfl

/-- No mark starts below `EF` but that of UTF-32, two zeros in front. -/
theorem detect_four {a b c : Nat} (ha : a < 0xEF) (hzeros : a = 0 → b = 0 → c = 0) (d : Nat)
    (r : Octets) :
    detect (a :: b :: c :: d :: r)
      = if a = 0 then (if b = 0 then .utf32 .big else .utf16 .big, 0)
        else if b = 0 then (if c = 0 ∧ d = 0 then .utf32 .little else .utf16 .little, 0)
        else (.utf8, 0) := by
  unfold detect
  split
  -- the five marks
  iterate 5
    · next heq =>
      simp only [List.cons.injEq] at heq
      omega
  · next heq =>
    simp only [List.cons.injEq] at heq
    obtain ⟨rfl, rfl, rfl, rfl, rfl⟩ := heq
    rfl
  · next heq => cases heq
  · next h _ => exact absurd rfl (h _ _ _ _ _)

/-- Only two zeros behind it make another mark of the mark of UTF-16. -/
theorem detect_mark16 {a b : Nat} (h : ¬ (a = 0 ∧ b = 0)) (r : Octets) :
    detect (0xFF :: 0xFE :: a :: b :: r) = (.utf16 .little, 2) := by
  cases a with
  | zero =>
    cases b with
    | zero => exact absurd ⟨rfl, rfl⟩ h
    | succ b => rfl
  | succ a => rfl

variable {c : Nat} {r : Text}

theorem ne_zero_of_head? (h : (c :: r).head? ≠ some 0) : c ≠ 0 := by
  intro hc
  rw [hc] at h
  exact h rfl

/-- The first octet of a code point that is not NUL is not zero. -/
theorem exists_utf8_cons (hc : c ≠ 0) (r : Text) :
    ∃ a octets, Utf8.encode (c :: r) = a :: octets ∧ a ≠ 0 := by
  show ∃ a octets, Utf8.encodePoint c ++ Utf8.encode r = a :: octets ∧ a ≠ 0
  unfold Utf8.encodePoint
  split
  · exact ⟨_, _, rfl, hc⟩
  split
  · exact ⟨_, _, rfl, by omega⟩
  split
  · exact ⟨_, _, rfl, by omega⟩
  · exact ⟨_, _, rfl, by omega⟩

/-- Nor are both octets of its first unit. -/
theorem exists_utf16_cons (order : ByteOrder) (hc : c ≠ 0) (r : Text) :
    ∃ a b octets, Utf16.encode order (c :: r) = a :: b :: octets ∧ ¬ (a = 0 ∧ b = 0) := by
  obtain ⟨n, ns, hunits, hn⟩ : ∃ n ns, Utf16.units c = n :: ns ∧ n ≠ 0 := by
    unfold Utf16.units
    split
    · exact ⟨c, [], rfl, hc⟩
    · exact ⟨_, _, rfl, by omega⟩
  obtain ⟨a, b, hencode, hunit⟩ := Utf16.exists_encodeUnit order n
  refine ⟨a, b, ns.flatMap (Utf16.encodeUnit order) ++ Utf16.encode order r, ?_, ?_⟩
  · show (Utf16.units c).flatMap (Utf16.encodeUnit order) ++ Utf16.encode order r = _
    rw [hunits, List.flatMap_cons, hencode]
    rfl
  · intro h
    obtain ⟨rfl, rfl⟩ := h
    apply hn
    rw [← hunit]
    cases order <;> rfl

theorem detect_utf8 (hpos : 0 < c) (hlt : c < 0x80) (hr : r.head? ≠ some 0) :
    detect (Utf8.encode (c :: r)) = (.utf8, 0) := by
  have hencode : Utf8.encode (c :: r) = c :: Utf8.encode r := by
    show Utf8.encodePoint c ++ Utf8.encode r = _
    rw [Utf8.encodePoint, if_pos hlt]
    rfl
  rw [hencode]
  cases r with
  | nil => exact detect_one c
  | cons x r =>
    obtain ⟨a, octets, heq, ha⟩ := exists_utf8_cons (ne_zero_of_head? hr) r
    rw [heq]
    -- two octets, three, or four and more
    cases octets with
    | nil => rw [detect_two (by omega), if_neg (by omega), if_neg ha]
    | cons b octets =>
      cases octets with
      | nil => exact detect_three (by omega) a b
      | cons d octets => rw [detect_four (by omega) (by omega), if_neg (by omega), if_neg ha]

theorem detect_utf16 (order : ByteOrder) (hpos : 0 < c) (hlt : c < 0x80)
    (hr : r.head? ≠ some 0) : detect (Utf16.encode order (c :: r)) = (.utf16 order, 0) := by
  have hencode : Utf16.encode order (c :: r)
      = Utf16.encodeUnit order c ++ Utf16.encode order r := by
    show (Utf16.units c).flatMap (Utf16.encodeUnit order) ++ Utf16.encode order r = _
    rw [Utf16.units, if_pos (by omega), List.flatMap_singleton]
  have hhigh : c / 0x100 = 0 := by omega
  have hlow : c % 0x100 = c := by omega
  rw [hencode]
  cases order with
  | little =>
    show detect (c % 0x100 :: c / 0x100 :: Utf16.encode .little r) = _
    rw [hhigh, hlow]
    cases r with
    | nil =>
      show detect [c, 0] = _
      rw [detect_two (by omega), if_neg (by omega), if_pos rfl]
    | cons x r =>
      -- two more zeros would be UTF-32
      obtain ⟨a, b, octets, heq, hab⟩ := exists_utf16_cons .little (ne_zero_of_head? hr) r
      rw [heq, detect_four (by omega) (by omega), if_neg (by omega), if_pos rfl, if_neg hab]
  | big =>
    show detect (c / 0x100 :: c % 0x100 :: Utf16.encode .big r) = _
    rw [hhigh, hlow]
    cases r with
    | nil =>
      show detect [0, c] = _
      rw [detect_two (by omega), if_pos rfl]
    | cons x r =>
      obtain ⟨a, b, octets, heq, -⟩ := exists_utf16_cons .big (ne_zero_of_head? hr) r
      rw [heq, detect_four (by omega) (by omega), if_pos rfl, if_neg (by omega)]

theorem detect_utf32 (order : ByteOrder) (hpos : 0 < c) (hlt : c < 0x80) :
    detect (Utf32.encode order (c :: r)) = (.utf32 order, 0) := by
  have hfirst : c / 0x1000000 = 0 := by omega
  have hsecond : c / 0x10000 % 0x100 = 0 := by omega
  have hthird : c / 0x100 % 0x100 = 0 := by omega
  have hfourth : c % 0x100 = c := by omega
  cases order with
  | little =>
    show detect (c % 0x100 :: c / 0x100 % 0x100 :: c / 0x10000 % 0x100 :: c / 0x1000000 ::
      Utf32.encode .little r) = _
    rw [hfirst, hsecond, hthird, hfourth, detect_four (by omega) (by omega), if_neg (by omega),
      if_pos rfl, if_pos ⟨rfl, rfl⟩]
  | big =>
    show detect (c / 0x1000000 :: c / 0x10000 % 0x100 :: c / 0x100 % 0x100 :: c % 0x100 ::
      Utf32.encode .big r) = _
    rw [hfirst, hsecond, hthird, hfourth, detect_four (by omega) (by omega), if_pos rfl,
      if_pos rfl]

/-- Without a mark the zeros tell: they stand beside the first code point in each encoding but
UTF-8. -/
theorem detect_encode (e : Encoding) (hpos : 0 < c) (hlt : c < 0x80) (hr : r.head? ≠ some 0) :
    detect (e.encode (c :: r)) = (e, 0) := by
  cases e with
  | utf8 => exact detect_utf8 hpos hlt hr
  | utf16 order => exact detect_utf16 order hpos hlt hr
  | utf32 order => exact detect_utf32 order hpos hlt

/-- A mark tells its encoding, unless NUL follows it. -/
theorem detect_marked (e : Encoding) (hr : r.head? ≠ some 0) :
    detect (e.encode [byteOrderMark] ++ e.encode r) = (e, (e.encode [byteOrderMark]).length) := by
  cases e with
  | utf8 => rfl
  | utf16 order =>
    cases order with
    | little =>
      cases r with
      | nil => rfl
      | cons x r =>
        obtain ⟨a, b, octets, heq, hab⟩ := exists_utf16_cons .little (ne_zero_of_head? hr) r
        show detect (0xFF :: 0xFE :: Utf16.encode .little (x :: r)) = _
        rw [heq]
        exact detect_mark16 hab octets
    | big => rfl
  | utf32 order => cases order <;> rfl

/-! ## §5. Spellings. -/

/-- The octets of a text in an encoding, with a byte order mark in front of it or without. -/
def spell (e : Encoding) (marked : Bool) (t : Text) : Octets :=
  e.encode (if marked then byteOrderMark :: t else t)

/-- **However a text is spelled, it is read from its octets**, if it starts with a code point of
ASCII other than NUL and NUL does not follow. -/
theorem decodeDetected_spell (hpos : 0 < c) (hlt : c < 0x80) (hr : r.head? ≠ some 0)
    (ht : Text.IsScalar (c :: r)) (e : Encoding) (marked : Bool) :
    decodeDetected (spell e marked (c :: r)) = .ok (c :: r) := by
  unfold decodeDetected spell
  cases marked with
  | false =>
    rw [if_neg Bool.false_ne_true, detect_encode e hpos hlt hr]
    exact decode_encode e 0 ht
  | true =>
    have hhead : (c :: r).head? ≠ some 0 := by
      rw [List.head?_cons, Ne, Option.some.injEq]
      omega
    rw [if_pos rfl, encode_cons, detect_marked e hhead]
    show decode e _ (List.drop _ _) = _
    rw [List.drop_left]
    exact decode_encode e _ ht

end Encoding

end EditorWire
