/-
  EditorWire.Proofs.DocumentUri.Canonical — URIs that are written as they came.

  Percent-coding leaves a choice: an octet may be escaped or not, its digits may
  be of either case.  A canonical path makes the choice in one way,

      safe octet    by itself
      other octet   by a percent sign and two digits, letters in upper case

  so a canonical path is what the octets it stands for are written as.  A URI is
  canonical when it is `file://` and a canonical path from a slash on whose drive,
  if it has one there, is in lower case.

  Main results:
    * `Percent.encodeOctets_eq_self` — a canonical path is written as it is.
    * `DocumentUri.toUrl_eq_self_iff` — a URI that is accepted is written as it came
      exactly if it is canonical, and nothing else is ever written.
-/
import EditorWire.Proofs.DocumentUri.RoundTrip

namespace EditorWire

/-! ## §1. Canonical written paths. -/

namespace Percent

/-- A written path with the one spelling of each octet. -/
inductive IsCanonical : Text → Prop where
  /-- Nothing is left to spell. -/
  | nil : IsCanonical []
  /-- A safe octet stands by itself. -/
  | safe {c : Nat} {r : Text} : isSafe c = true → IsCanonical r → IsCanonical (c :: r)
  /-- Any other octet is escaped, no digit of it in lower case. -/
  | escape {a b high low : Nat} {r : Text} :
      CodePoint.hexValue? a = some high → CodePoint.isLower a = false →
      CodePoint.hexValue? b = some low → CodePoint.isLower b = false →
      isSafe (high * 16 + low) = false → IsCanonical r →
      IsCanonical (Ascii.percent :: a :: b :: r)

/-- A digit that is not in lower case is the one written for its value. -/
theorem upperHexDigit_of_hexValue? {c n : Nat} (h : CodePoint.hexValue? c = some n)
    (hc : CodePoint.isLower c = false) : CodePoint.upperHexDigit n = c := by
  simp only [CodePoint.hexValue?, CodePoint.isDigit, CodePoint.isLower, Bool.and_eq_true,
    Bool.and_eq_false_iff, decide_eq_true_eq, decide_eq_false_iff_not] at h hc
  unfold CodePoint.upperHexDigit
  split at h
  · simp only [Option.some.injEq] at h
    rw [if_pos (by omega)]
    omega
  split at h
  · simp only [Option.some.injEq] at h
    rw [if_neg (by omega)]
    omega
  split at h
  · omega
  · cases h

/-- A digit that is written is not in lower case. -/
theorem isLower_upperHexDigit {n : Nat} (h : n < 16) :
    CodePoint.isLower (CodePoint.upperHexDigit n) = false := by
  have hall : ∀ m < 16, CodePoint.isLower (CodePoint.upperHexDigit m) = false := by decide
  exact hall n h

theorem isSafe_lt {c : Nat} (h : isSafe c = true) : c < 0x80 := by
  have hbounds := (show IsWritten c from .inl h).bounds
  omega

theorem isSafe_of_isUpper {c : Nat} (h : CodePoint.isUpper c = true) : isSafe c = true := by
  simp [isSafe, CodePoint.isLetter, h]

/-- A safe code point is written by itself. -/
theorem encode_cons_of_isSafe {c : Nat} (h : isSafe c = true) (r : Text) :
    encode (c :: r) = c :: encode r := by
  have hpoint : Utf8.encodePoint c = [c] := if_pos (isSafe_lt h)
  have hoctet : encodeOctet c = [c] := if_pos h
  show encodeOctets (Utf8.encodePoint c ++ Utf8.encode r) = _
  rw [hpoint]
  show encodeOctet c ++ encodeOctets (Utf8.encode r) = _
  rw [hoctet]
  rfl

/-- What is written is canonical. -/
theorem isCanonical_encodeOctets {octets : Octets} (h : ∀ b ∈ octets, b < 256) :
    IsCanonical (encodeOctets octets) := by
  induction octets with
  | nil => exact .nil
  | cons b octets ih =>
    have hb : b < 256 := h b List.mem_cons_self
    have hrest := ih fun x hx => h x (List.mem_cons_of_mem b hx)
    show IsCanonical (encodeOctet b ++ encodeOctets octets)
    unfold encodeOctet
    split
    · next hsafe => exact .safe hsafe hrest
    · next hsafe =>
      rw [Bool.not_eq_true] at hsafe
      have hvalue : b / 16 * 16 + b % 16 = b := by omega
      exact .escape (CodePoint.hexValue?_upperHexDigit (by omega)) (isLower_upperHexDigit (by omega))
        (CodePoint.hexValue?_upperHexDigit (by omega)) (isLower_upperHexDigit (by omega))
        (by rw [hvalue]; exact hsafe) hrest

/-- **A canonical path is written as it is**: what it stands for has no other spelling. -/
theorem encodeOctets_eq_self {p : Text} {octets : Octets} (hp : IsCanonical p)
    (h : StandsFor p octets) : encodeOctets octets = p := by
  induction hp generalizing octets with
  | nil =>
    cases h
    rfl
  | @safe c r hsafe _ ih =>
    cases h with
    | escape => exact absurd hsafe (by decide)
    | @plain _ _ rest _ hrest =>
      have hpoint : Utf8.encodePoint c = [c] := if_pos (isSafe_lt hsafe)
      have hoctet : encodeOctet c = [c] := if_pos hsafe
      rw [hpoint]
      show encodeOctet c ++ encodeOctets rest = c :: r
      rw [hoctet, ih hrest]
      rfl
  | @escape a b high low r ha hupper hb hupper' hsafe _ ih =>
    cases h with
    | plain hne => exact absurd rfl hne
    | @escape _ _ high' low' _ rest ha' hb' hrest =>
      obtain rfl := Option.some.inj (ha.symm.trans ha')
      obtain rfl := Option.some.inj (hb.symm.trans hb')
      -- the digits of the octet are the two that stand there
      have hlow := CodePoint.hexValue?_lt hb
      have hoctet : encodeOctet (high * 16 + low) = [Ascii.percent, a, b] := by
        unfold encodeOctet Hexadecimal.upperOctet
        rw [hsafe, if_neg Bool.false_ne_true, show (high * 16 + low) / 16 = high by omega,
          show (high * 16 + low) % 16 = low by omega, upperHexDigit_of_hexValue? ha hupper,
          upperHexDigit_of_hexValue? hb hupper']
      show encodeOctet (high * 16 + low) ++ encodeOctets rest = _
      rw [hoctet, ih hrest]
      rfl

/-- A canonical path is written with safe octets and percent signs. -/
theorem IsCanonical.isWritten {p : Text} (h : IsCanonical p) : ∀ c ∈ p, IsWritten c := by
  have hdigit : ∀ {c n : Nat}, CodePoint.hexValue? c = some n → CodePoint.isLower c = false →
      IsWritten c := by
    intro c n hc hlower
    rw [← upperHexDigit_of_hexValue? hc hlower]
    exact .inl (isSafe_upperHexDigit (CodePoint.hexValue?_lt hc))
  induction h with
  | nil => exact fun c hc => absurd hc List.not_mem_nil
  | safe hsafe _ ih => exact List.forall_mem_cons.2 ⟨.inl hsafe, ih⟩
  | escape ha hupper hb hupper' _ _ ih =>
    exact List.forall_mem_cons.2 ⟨.inr rfl, List.forall_mem_cons.2 ⟨hdigit ha hupper,
      List.forall_mem_cons.2 ⟨hdigit hb hupper', ih⟩⟩⟩

/-- None of those is a blank, a control character, a delimiter, a colon or a backslash. -/
theorem IsWritten.delimits {c : Nat} (h : IsWritten c) :
    0x20 < c ∧ c < 0x7F ∧ c ∉ [Ascii.hash, Ascii.question, Ascii.colon, Ascii.backslash] := by
  obtain ⟨hlow, hhigh, hhash, hquestion⟩ := h.bounds
  refine ⟨hlow, hhigh, ?_⟩
  have hcolon : c ≠ Ascii.colon := by
    intro heq
    rw [heq] at h
    rcases h with h | h <;> exact absurd h (by decide)
  have hbackslash : c ≠ Ascii.backslash := by
    intro heq
    rw [heq] at h
    rcases h with h | h <;> exact absurd h (by decide)
  simp [hhash, hquestion, hcolon, hbackslash]

end Percent

/-! ## §2. Canonical URIs. -/

namespace DocumentUri

/-- A canonical path from a slash on, its drive in lower case. -/
structure IsCanonicalPath (q : Text) : Prop where
  /-- It starts with a slash. -/
  rooted : q.head? = some Ascii.slash
  /-- Each octet has its one spelling. -/
  canonical : Percent.IsCanonical q
  /-- The letter in front of a colon, right behind the first slash, is not in upper case. -/
  drive : ∀ c r, q = Ascii.slash :: c :: (Text.ofString "%3A" ++ r) → CodePoint.isUpper c = false

/-- `file://` and a canonical path. -/
def IsCanonicalUrl (raw : Text) : Prop :=
  ∃ q, raw = fileScheme ++ "://" ++ q ∧ IsCanonicalPath q

/-- The splitter finds the path where it stands in a canonical URI. -/
theorem exists_parts_of_isCanonicalPath {q : Text} (h : IsCanonicalPath q) :
    ∃ parts, Reference.split? (fileScheme ++ "://" ++ q) = some parts ∧ parts.path = q := by
  obtain ⟨r, hr⟩ := List.head?_eq_some_iff.1 h.rooted
  have htail : LocalTail (Ascii.slash :: Ascii.slash :: q) q := by
    rw [hr]
    exact localTail_of_rooted r
  obtain ⟨parts, hsplit, -, -, hpath⟩ := exists_local_parts_iff.2
    ⟨fileScheme, _, q, [], rfl, rfl, htail, cut_of_isWritten h.canonical.isWritten⟩
  exact ⟨parts, hsplit, hpath⟩

/-- A canonical URI that is accepted spells a text that is written as its path. -/
theorem exists_encode_eq_of_ofUrl {q : Text} {d : DocumentUri} (hq : IsCanonicalPath q)
    (h : ofUrl (fileScheme ++ "://" ++ q) = .ok d) :
    ∃ t, Text.IsScalar t ∧ Percent.encode t = q ∧ d.path = Path.normalize t := by
  obtain ⟨-, parts, hsplit, -, -, hwritten⟩ := ofUrl_eq_ok_iff_parts.1 h
  obtain ⟨parts', hsplit', hpath⟩ := exists_parts_of_isCanonicalPath hq
  obtain rfl := Option.some.inj (hsplit.symm.trans hsplit')
  rw [hpath] at hwritten
  obtain ⟨t, hspells, hd⟩ := ofWrittenPath_eq_ok_iff.1 hwritten
  obtain ⟨octets, hstands, ht, hoctets⟩ := hspells.utf8
  refine ⟨t, ht, ?_, hd⟩
  unfold Percent.encode
  rw [hoctets]
  exact Percent.encodeOctets_eq_self hq.canonical hstands

/-! ## §3. What is written is canonical. -/

/-- A letter and an escaped colon are written for a drive. -/
theorem exists_of_encode_eq_drive {t r : Text} {c : Nat} (ht : Text.IsScalar t)
    (hc : CodePoint.isUpper c = true)
    (h : Percent.encode t = c :: (Text.ofString "%3A" ++ r)) : ∃ s, t = c :: Ascii.colon :: s := by
  have hsafe := Percent.isSafe_of_isUpper hc
  have hlt := Percent.isSafe_lt hsafe
  have hne : c ≠ Ascii.percent := by
    intro heq
    rw [heq] at hsafe
    exact absurd hsafe (by decide)
  -- the octets are those of the letter, the colon, and what the rest stands for
  have hwhole := Percent.decode?_eq_some_iff.2 (Percent.standsFor_encode ht)
  have hpoint : Utf8.encodePoint c = [c] := if_pos hlt
  rw [h, Percent.decode?_cons_of_ne hne, hpoint] at hwhole
  obtain ⟨after, hafter, heq⟩ := Option.map_eq_some_iff.1 hwhole
  obtain ⟨octets, -, rfl⟩ : ∃ octets, Percent.decode? r = some octets
      ∧ Ascii.colon :: octets = after := by
    have hthree : CodePoint.hexValue? 0x33 = some 3 := rfl
    have hten : CodePoint.hexValue? 0x41 = some 10 := rfl
    have hescape := Percent.decode?_escape hthree hten r
    exact Option.map_eq_some_iff.1 (hescape.symm.trans hafter)
  obtain ⟨s, rfl, hs, hrest⟩ := Utf8.exists_of_encode_eq_cons ht hlt heq.symm
  obtain ⟨s', rfl, -, -⟩ := Utf8.exists_of_encode_eq_cons hs (by decide) hrest
  exact ⟨s', rfl⟩

/-- **What is written for a document is canonical.** -/
theorem isCanonicalPath_encode (d : DocumentUri) :
    IsCanonicalPath (Percent.encode (Path.rooted d.path)) := by
  have hscalar : Text.IsScalar (Path.rooted d.path) := Path.isScalar_rooted d.isScalar
  obtain ⟨s, hs⟩ := Path.exists_rooted_eq_cons d.isNormal
  refine ⟨?_, Percent.isCanonical_encodeOctets (Utf8.encode_lt hscalar), ?_⟩
  · rw [hs, Percent.encode_slash_cons]
    rfl
  · intro c r hq
    by_contra hc
    rw [Bool.not_eq_false] at hc
    rw [hs, Percent.encode_slash_cons] at hq
    -- an upper-case drive would stand behind the slash, but a normal path has none
    have hscalar' : Text.IsScalar s := fun x hx => hscalar x (by rw [hs]; exact .tail _ hx)
    obtain ⟨s', rfl⟩ := exists_of_encode_eq_drive hscalar' hc (List.cons.inj hq).2
    have hdrive : Path.startsWithDrive (c :: Ascii.colon :: s') = true := by
      simp [Path.startsWithDrive, CodePoint.isLetter, hc]
    have hnormal := d.isNormal
    unfold Path.rooted at hs
    split at hs
    · rw [(List.cons.inj hs).2] at hnormal
      rcases hnormal with ⟨hlower, -⟩ | ⟨rfl, -⟩
      · simp only [CodePoint.isUpper, CodePoint.isLower, Bool.and_eq_true,
          decide_eq_true_eq] at hc hlower
        omega
      · exact absurd hc (by decide)
    · rw [hs] at hnormal
      rcases hnormal with ⟨hslash, -⟩ | ⟨-, hnone⟩
      · exact absurd hslash (by decide)
      · rw [hdrive] at hnone
        exact absurd hnone (by decide)

/-! ## §4. What is canonical is written. -/

/-- A path from a slash on, whose drive is in lower case, comes back from its normal form. -/
theorem rooted_normalize {s : Text}
    (h : ∀ c r, s = c :: Ascii.colon :: r → CodePoint.isUpper c = false) :
    Path.rooted (Path.normalize (Ascii.slash :: s)) = Ascii.slash :: s := by
  cases hdrive : Path.startsWithDrive s with
  | true =>
    obtain ⟨c, r, rfl, hc⟩ := Path.startsWithDrive_iff.1 hdrive
    have hlower : CodePoint.isLower c = true := by
      simpa [CodePoint.isLetter, h c r rfl] using hc
    have hrooted : Path.rooted (c :: Ascii.colon :: r) = Ascii.slash :: c :: Ascii.colon :: r :=
      if_pos hdrive
    have hnormal : Path.IsNormal (c :: Ascii.colon :: r) := .inl ⟨hlower, rfl⟩
    rw [← hrooted, Path.normalize_rooted hnormal]
  | false =>
    have hnormal : Path.IsNormal (Ascii.slash :: s) := .inr ⟨rfl, hdrive⟩
    rw [Path.normalize_eq_self hnormal]
    refine if_neg fun hslash => ?_
    obtain ⟨c, r, heq, hc⟩ := Path.startsWithDrive_iff.1 hslash
    rw [← (List.cons.inj heq).1] at hc
    exact absurd hc (by decide)

/-- A canonical path is written for the normal form of the text it spells. -/
theorem encode_rooted_normalize {q t : Text} (hq : IsCanonicalPath q) (ht : Text.IsScalar t)
    (hencode : Percent.encode t = q) : Percent.encode (Path.rooted (Path.normalize t)) = q := by
  obtain ⟨r, hr⟩ := List.head?_eq_some_iff.1 hq.rooted
  -- the text starts with a slash, since its path does
  obtain ⟨s, rfl⟩ : ∃ s, t = Ascii.slash :: s := by
    have hwhole := Percent.decode?_eq_some_iff.2 (Percent.standsFor_encode ht)
    rw [hencode, hr, Percent.decode?_cons_of_ne (by decide)] at hwhole
    obtain ⟨octets, hoctets, heq⟩ := Option.map_eq_some_iff.1 hwhole
    obtain ⟨s, hs, -, -⟩ := Utf8.exists_of_encode_eq_cons ht
      (show Ascii.slash < 0x80 by decide) heq.symm
    exact ⟨s, hs⟩
  rw [rooted_normalize, hencode]
  -- a drive that is written stands behind the slash of the path
  intro c r' hs
  by_contra hc
  rw [Bool.not_eq_false] at hc
  have hcolon : Percent.encode (Ascii.colon :: r') = Text.ofString "%3A" ++ Percent.encode r' := rfl
  rw [hs, Percent.encode_slash_cons, Percent.encode_cons_of_isSafe (Percent.isSafe_of_isUpper hc),
    hcolon] at hencode
  have hupper := hq.drive c (Percent.encode r') hencode.symm
  rw [hc] at hupper
  exact absurd hupper (by decide)

/-! ## §5. Fixed points. -/

/-- The URI of a document is `file://` and what its path is written as. -/
theorem toUrl_eq (d : DocumentUri) :
    d.toUrl = fileScheme ++ "://" ++ Percent.encode (Path.rooted d.path) := rfl

/-- **Canonical URIs are the fixed points**: a URI that is accepted is written as it came exactly
if it is canonical.  Every URI that is written is canonical, and so is ASCII without blanks,
delimiters, backslashes and colons behind that of the scheme. -/
theorem toUrl_eq_self_iff :
    (∀ raw d, ofUrl raw = .ok d → (d.toUrl = raw ↔ IsCanonicalUrl raw))
      ∧ ∀ d : DocumentUri, ∃ q, d.toUrl = fileScheme ++ "://" ++ q ∧ IsCanonicalPath q
          ∧ ∀ c ∈ q, 0x20 < c ∧ c < 0x7F
            ∧ c ∉ [Ascii.hash, Ascii.question, Ascii.colon, Ascii.backslash] := by
  have hcanonical := isCanonicalPath_encode
  refine ⟨fun raw d h => ⟨fun hself => ?_, ?_⟩, fun d => ⟨_, toUrl_eq d, hcanonical d, ?_⟩⟩
  · rw [← hself]
    exact ⟨_, toUrl_eq d, hcanonical d⟩
  · intro hraw
    obtain ⟨q, rfl, hq⟩ := hraw
    obtain ⟨t, ht, hencode, hpath⟩ := exists_encode_eq_of_ofUrl hq h
    rw [toUrl_eq, hpath, encode_rooted_normalize hq ht hencode]
  · intro c hc
    exact Percent.IsWritten.delimits ((hcanonical d).canonical.isWritten c hc)

/-- A URI with a drive and a code point beyond ASCII. -/
def driveUrl : Text := "file:///c%3A/%C3%A9"

/-- The document of that URI. -/
def driveDocument : DocumentUri := ofScalars "c:/\u00e9" (by decide)

/-- The URI is accepted and written as it came, so it is canonical. -/
theorem isCanonicalUrl_driveUrl :
    ofUrl driveUrl = .ok driveDocument ∧ driveDocument.toUrl = driveUrl
      ∧ IsCanonicalUrl driveUrl := by
  have hself : driveDocument.toUrl = driveUrl := by rfl
  have haccepted : ofUrl driveUrl = .ok driveDocument := by
    rw [← hself]
    exact ofUrl_toUrl driveDocument
  exact ⟨haccepted, hself, (toUrl_eq_self_iff.1 driveUrl driveDocument haccepted).1 hself⟩

end DocumentUri

end EditorWire
