/-
  EditorWire.Proofs.DocumentUri.RoundTrip — the written URI of a document names it.

  A document is written as `file://` and the percent-coded path, with a slash in
  front of a drive.  What is written is a URI of the grammar: percent-coding
  leaves nothing but unreserved characters, slashes and whole escapes, so the
  authority is empty, nothing is cut off as query or fragment, and the path spells
  the text that was written.

  Main result:
    * `toUrl_roundTrip` — reading the URI of a document gives the document back, and
      documents with one URI are one document.
-/
import EditorWire.Proofs.DocumentUri.Grammar

namespace EditorWire

/-! ## §1. The slash in front of a drive. -/

namespace Path

/-- The path as it is written: a slash is put in front of a drive. -/
def rooted (p : Text) : Text := if startsWithDrive p then Ascii.slash :: p else p

/-- A written path starts with a slash. -/
theorem exists_rooted_eq_cons {p : Text} (h : IsNormal p) : ∃ r, rooted p = Ascii.slash :: r := by
  unfold rooted
  split
  · exact ⟨p, rfl⟩
  · next hd =>
    -- a normal path without a drive is rooted already
    cases p with
    | nil => exact h.elim
    | cons c r =>
      rcases h with ⟨hc, hr⟩ | ⟨hc, -⟩
      · obtain ⟨r', rfl⟩ := List.head?_eq_some_iff.1 hr
        exact absurd (by simp [startsWithDrive, CodePoint.isLetter, hc]) hd
      · exact ⟨r, by rw [hc]⟩

/-- A drive has no slash in front of it. -/
theorem unroot_eq_self_of_drive {p : Text} (h : startsWithDrive p = true) : unroot p = p := by
  obtain ⟨c, r, rfl, hc⟩ := startsWithDrive_iff.1 h
  have hslash : c ≠ Ascii.slash := by
    rintro rfl
    exact absurd hc (by decide)
  rw [unroot_cons, if_neg fun hboth => hslash hboth.1]

/-- The slash in front of a drive goes away again. -/
theorem normalize_rooted {p : Text} (h : IsNormal p) : normalize (rooted p) = p := by
  unfold rooted
  split
  · next hd =>
    have hunroot : unroot (Ascii.slash :: p) = unroot p := by
      rw [unroot_cons, if_pos ⟨rfl, hd⟩, unroot_eq_self_of_drive hd]
    calc normalize (Ascii.slash :: p) = normalize p := by unfold normalize; rw [hunroot]
      _ = p := normalize_eq_self h
  · exact normalize_eq_self h

theorem isScalar_rooted {p : Text} (h : Text.IsScalar p) : Text.IsScalar (rooted p) := by
  unfold rooted
  split
  · intro c hc
    rcases List.mem_cons.1 hc with rfl | hc
    · decide
    · exact h c hc
  · exact h

end Path

/-! ## §2. What percent-coding leaves. -/

namespace Percent

/-- The code points of a written path: the safe ones and the percent sign. -/
def IsWritten (c : Nat) : Prop := isSafe c = true ∨ c = Ascii.percent

/-- A written path is ASCII, without blanks, control characters and delimiters. -/
theorem IsWritten.bounds {c : Nat} (h : IsWritten c) :
    0x20 < c ∧ c < 0x7F ∧ c ≠ Ascii.hash ∧ c ≠ Ascii.question := by
  rcases h with h | rfl
  · simp only [isSafe, CodePoint.isLetter, CodePoint.isUpper, CodePoint.isLower,
      CodePoint.isDigit, Bool.or_eq_true, Bool.and_eq_true, decide_eq_true_eq, beq_iff_eq,
      Ascii.hyphen, Ascii.dot, Ascii.slash] at h
    simp only [Ascii.hash, Ascii.question]
    omega
  · decide

theorem isSafe_upperHexDigit {n : Nat} (h : n < 16) :
    isSafe (CodePoint.upperHexDigit n) = true := by
  have hall : ∀ m < 16, isSafe (CodePoint.upperHexDigit m) = true := by decide
  exact hall n h

theorem isWritten_of_mem_encodeOctet {b c : Nat} (hb : b < 256) (hc : c ∈ encodeOctet b) :
    IsWritten c := by
  unfold encodeOctet at hc
  split at hc
  · next hsafe =>
    rw [List.mem_singleton] at hc
    exact .inl (hc ▸ hsafe)
  · simp only [Hexadecimal.upperOctet, List.mem_cons, List.not_mem_nil, or_false] at hc
    rcases hc with rfl | rfl | rfl
    · exact .inr rfl
    · exact .inl (isSafe_upperHexDigit (by omega))
    · exact .inl (isSafe_upperHexDigit (by omega))

/-- What a text of scalar values is written with. -/
theorem isWritten_of_mem_encode {t : Text} (ht : Text.IsScalar t) :
    ∀ c ∈ encode t, IsWritten c := by
  intro c hc
  obtain ⟨b, hb, hc⟩ := List.mem_flatMap.1 hc
  exact isWritten_of_mem_encodeOctet (Utf8.encode_lt ht b hb) hc

/-- What is written stands for the UTF-8 form of the text. -/
theorem standsFor_encode {t : Text} (ht : Text.IsScalar t) :
    StandsFor (encode t) (Utf8.encode t) :=
  decode?_eq_some_iff.1 (decode?_encodeOctets (Utf8.encode_lt ht))

/-- A slash in front stays in front. -/
theorem encode_slash_cons (r : Text) : encode (Ascii.slash :: r) = Ascii.slash :: encode r := rfl

end Percent

/-! ## §3. The written URI. -/

namespace DocumentUri

/-- What is written for a text spells the text. -/
theorem spellsPath_encode {t : Text} (hne : Percent.encode t ≠ []) (ht : Text.IsScalar t) :
    SpellsPath (Percent.encode t) t where
  ne_nil := hne
  isScalar := fun c hc => by
    have hbounds := (Percent.isWritten_of_mem_encode ht c hc).bounds
    exact .inl (by omega)
  whole := Percent.exists_standsFor_iff.1 ⟨_, Percent.standsFor_encode ht⟩
  utf8 := ⟨_, Percent.standsFor_encode ht, ht, rfl⟩

/-- Behind two slashes a path from a slash on is the whole tail: the authority is empty. -/
theorem localTail_of_rooted (r : Text) :
    LocalTail (Ascii.slash :: Ascii.slash :: Ascii.slash :: r) (Ascii.slash :: r) := by
  refine .authority (show Text.Cut _ _ [] _ from ?_) (.inl rfl)
  refine ⟨rfl, fun c hc => absurd hc List.not_mem_nil, ?_⟩
  intro c s hs
  cases hs
  rfl

/-- Nothing of a written path is cut off as query or fragment. -/
theorem cut_of_isWritten {q : Text} (h : ∀ c ∈ q, Percent.IsWritten c) :
    Text.Cut endsPath q q [] := by
  refine Text.Cut.of_free fun c hc => ?_
  obtain ⟨-, -, hhash, hquestion⟩ := (h c hc).bounds
  simp [endsPath, hhash, hquestion]

/-- **The URI of a document names its path**, a slash in front of a drive. -/
theorem names_toUrl (d : DocumentUri) : Names d.toUrl (Path.rooted d.path) := by
  obtain ⟨r, hr⟩ := Path.exists_rooted_eq_cons d.isNormal
  have hscalar : Text.IsScalar (Path.rooted d.path) := Path.isScalar_rooted d.isScalar
  have hcons : Percent.encode (Path.rooted d.path) = Ascii.slash :: Percent.encode r := by
    rw [hr, Percent.encode_slash_cons]
  have hwritten := Percent.isWritten_of_mem_encode hscalar
  have htail : LocalTail (Ascii.slash :: Ascii.slash :: Percent.encode (Path.rooted d.path))
      (Percent.encode (Path.rooted d.path)) := by
    rw [hcons]
    exact localTail_of_rooted _
  have hcut := cut_of_isWritten hwritten
  have hsafe : ∀ c ∈ fileScheme ++ Ascii.colon :: Ascii.slash :: Ascii.slash
      :: Percent.encode (Path.rooted d.path), 0x20 < c ∧ c ≠ 0x7F := by
    have hfront : ∀ c ∈ fileScheme ++ [Ascii.colon, Ascii.slash, Ascii.slash],
        0x20 < c ∧ c ≠ 0x7F := by decide
    intro c hc
    rw [show fileScheme ++ Ascii.colon :: Ascii.slash :: Ascii.slash
        :: Percent.encode (Path.rooted d.path)
      = (fileScheme ++ [Ascii.colon, Ascii.slash, Ascii.slash])
        ++ Percent.encode (Path.rooted d.path) by simp] at hc
    rcases List.mem_append.1 hc with hc | hc
    · exact hfront c hc
    · obtain ⟨hlow, hhigh, -, -⟩ := (hwritten c hc).bounds
      omega
  have hne : Percent.encode (Path.rooted d.path) ≠ [] := by
    rw [hcons]
    exact List.cons_ne_nil _ _
  exact .mk hsafe rfl htail hcut (spellsPath_encode hne hscalar)

/-- Reading the URI of a document gives the document back. -/
theorem ofUrl_toUrl (d : DocumentUri) : ofUrl d.toUrl = .ok d :=
  ofUrl_eq_ok_iff.2 ⟨_, names_toUrl d, (Path.normalize_rooted d.isNormal).symm⟩

/-- **A document and its URI determine each other**: the URI of every document, however the
document was made, is read as that document, and no two documents have one URI. -/
theorem toUrl_roundTrip :
    (∀ d : DocumentUri, ofUrl d.toUrl = .ok d) ∧ Function.Injective toUrl := by
  refine ⟨ofUrl_toUrl, fun d e h => ?_⟩
  have hd := ofUrl_toUrl d
  rw [h, ofUrl_toUrl e] at hd
  exact (Except.ok.inj hd).symm

end DocumentUri

end EditorWire
