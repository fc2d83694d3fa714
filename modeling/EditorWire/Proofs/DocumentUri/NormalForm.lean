/-
  EditorWire.Proofs.DocumentUri.NormalForm — when two paths name one document.

  A path may come with or without the slash at its root, and with a drive letter of
  either case.  A slash in front changes nothing, and behind it there are two cases:

      normalize p       =  normalize (slashed p)
      normalize "/C:…"  =  "c:…"
      normalize "/…"    =  "/…"          where no drive follows the slash

  So the paths of one document are those that, with the slash, are the same up to
  the case of the drive letter.

  Main results:
    * `Path.normalize_eq_iff` — paths with one normal form, for all pairs of paths.
    * `DocumentUri.ofPath_normalForm` — which documents paths have, and which paths have none.
-/
import EditorWire.Proofs.DocumentUri.Grammar

namespace EditorWire

namespace Path

/-! ## §1. Drives and roots. -/

/-- The text starts with an ASCII letter and a colon. -/
def HasDrive (t : Text) : Prop :=
  ∃ c r, t = c :: Ascii.colon :: r ∧ CodePoint.isLetter c = true

theorem startsWithDrive_eq_true_iff {t : Text} : startsWithDrive t = true ↔ HasDrive t :=
  startsWithDrive_iff

theorem startsWithDrive_eq_false_iff {t : Text} : startsWithDrive t = false ↔ ¬ HasDrive t := by
  rw [← Bool.not_eq_true, startsWithDrive_eq_true_iff]

/-- A path as documents keep it. -/
inductive IsSettled : Text → Prop where
  /-- It starts at a drive, whose letter is in lower case. -/
  | drive {c : Nat} {r : Text} : CodePoint.isLower c = true → IsSettled (c :: Ascii.colon :: r)
  /-- It starts at a slash, behind which there is no drive. -/
  | root {r : Text} : ¬ HasDrive r → IsSettled (Ascii.slash :: r)

/-- Normal paths are settled. -/
theorem IsNormal.isSettled {p : Text} (h : IsNormal p) : IsSettled p := by
  cases p with
  | nil => exact h.elim
  | cons c r =>
    rcases h with ⟨hc, hr⟩ | ⟨rfl, hr⟩
    · obtain ⟨s, rfl⟩ := List.head?_eq_some_iff.1 hr
      exact .drive hc
    · exact .root (startsWithDrive_eq_false_iff.1 hr)

/-- The path with a slash in front, unless it has one. -/
def slashed (p : Text) : Text := if p.head? = some Ascii.slash then p else Ascii.slash :: p

theorem exists_slashed_eq_cons (p : Text) : ∃ r, slashed p = Ascii.slash :: r := by
  unfold slashed
  split
  · next h => exact List.head?_eq_some_iff.1 h
  · exact ⟨p, rfl⟩

/-! ## §2. The normal form behind a slash. -/

/-- In front of a drive the slash goes away, and the letter is put in lower case. -/
theorem normalize_slash_drive {c : Nat} (hc : CodePoint.isLetter c = true) (r : Text) :
    normalize (Ascii.slash :: c :: Ascii.colon :: r)
      = CodePoint.toLower c :: Ascii.colon :: r := by
  have hdrive : startsWithDrive (c :: Ascii.colon :: r) = true := hc
  unfold normalize
  simp only [unroot_cons, hdrive, and_self, if_true, lowerHead]

/-- In front of anything else it stays. -/
theorem normalize_slash_of_not_hasDrive {r : Text} (hr : ¬ HasDrive r) :
    normalize (Ascii.slash :: r) = Ascii.slash :: r :=
  normalize_eq_self (.inr ⟨rfl, startsWithDrive_eq_false_iff.2 hr⟩)

/-- **A slash in front changes nothing.** -/
theorem normalize_slashed (p : Text) : normalize (slashed p) = normalize p := by
  unfold slashed
  split
  · rfl
  next hslash =>
  by_cases hdrive : HasDrive p
  · -- a drive loses the slash that is put in front of it
    obtain ⟨c, r, rfl, hc⟩ := hdrive
    have hc' : c ≠ Ascii.slash := fun h => hslash (by rw [h, List.head?_cons])
    have hstarts : startsWithDrive (c :: Ascii.colon :: r) = true := hc
    rw [normalize_slash_drive hc]
    unfold normalize
    simp only [unroot_cons, if_neg fun h : c = Ascii.slash ∧ _ => hc' h.1, hstarts, if_true,
      lowerHead]
  · -- any other path gets one
    have hself : unroot p = p := by
      cases p with
      | nil => rfl
      | cons c r =>
        rw [unroot_cons, if_neg fun h => hslash (by rw [h.1, List.head?_cons])]
    rw [normalize_slash_of_not_hasDrive hdrive]
    unfold normalize
    simp only [hself, startsWithDrive_eq_false_iff.2 hdrive, Bool.false_eq_true, if_false,
      if_neg hslash]

/-! ## §3. Paths with one normal form. -/

/-- Two texts are identical, or differ only in the case of an ASCII letter at index 1 that is
followed by a colon at index 2. -/
inductive SameButDriveCase : Text → Text → Prop where
  /-- They are identical. -/
  | refl (p : Text) : SameButDriveCase p p
  /-- The letter of the drive is of either case. -/
  | drive {first c d : Nat} {r : Text} :
      CodePoint.isLetter c = true → CodePoint.isLetter d = true →
      CodePoint.toLower c = CodePoint.toLower d →
      SameButDriveCase (first :: c :: Ascii.colon :: r) (first :: d :: Ascii.colon :: r)

/-- The normal form of a path without a drive is that of no path with one. -/
theorem not_hasDrive_of_normalize_eq {r s : Text} (hr : ¬ HasDrive r)
    (h : normalize (Ascii.slash :: r) = normalize (Ascii.slash :: s)) : ¬ HasDrive s := by
  rintro ⟨d, s', rfl, hd⟩
  rw [normalize_slash_of_not_hasDrive hr, normalize_slash_drive hd] at h
  have hlower := isLower_toLower hd
  rw [← (List.cons.inj h).1] at hlower
  exact absurd hlower (by decide)

theorem normalize_slash_eq_iff {r s : Text} :
    normalize (Ascii.slash :: r) = normalize (Ascii.slash :: s)
      ↔ SameButDriveCase (Ascii.slash :: r) (Ascii.slash :: s) := by
  constructor
  · intro h
    by_cases hr : HasDrive r
    · by_cases hs : HasDrive s
      · -- two drives of one letter, and the same behind them
        obtain ⟨c, r', rfl, hc⟩ := hr
        obtain ⟨d, s', rfl, hd⟩ := hs
        rw [normalize_slash_drive hc, normalize_slash_drive hd] at h
        obtain ⟨hcase, htail⟩ := List.cons.inj h
        obtain rfl := (List.cons.inj htail).2
        exact .drive hc hd hcase
      · exact absurd hr (not_hasDrive_of_normalize_eq hs h.symm)
    · have hs := not_hasDrive_of_normalize_eq hr h
      rw [normalize_slash_of_not_hasDrive hr, normalize_slash_of_not_hasDrive hs] at h
      rw [h]
      exact .refl _
  · intro h
    cases h with
    | refl => rfl
    | drive hc hd hcase => rw [normalize_slash_drive hc, normalize_slash_drive hd, hcase]

/-- **Two paths have one normal form exactly if, with the slash in front, they are the same but
for the case of a drive.** -/
theorem normalize_eq_iff {p q : Text} :
    normalize p = normalize q ↔ SameButDriveCase (slashed p) (slashed q) := by
  obtain ⟨r, hr⟩ := exists_slashed_eq_cons p
  obtain ⟨s, hs⟩ := exists_slashed_eq_cons q
  rw [← normalize_slashed p, ← normalize_slashed q, hr, hs, normalize_slash_eq_iff]

end Path

/-! ## §4. The documents of paths. -/

namespace DocumentUri

/-- A path that is not empty and has octets has a document. -/
theorem ofPath_eq_ok {p : Text} (hne : p ≠ []) (hp : Text.IsScalar p) :
    ofPath p = .ok (ofScalars p hp) :=
  (ofPath_eq_ok_iff hne hp).2 rfl

/-- The document of a path keeps its normal form. -/
theorem path_of_ofPath {p : Text} {d : DocumentUri} (h : ofPath p = .ok d) :
    d.path = Path.normalize p := by
  unfold ofPath at h
  split at h
  · cases h
  split at h
  · cases h
    rfl
  · cases h

theorem path_ne_nil (d : DocumentUri) : d.path ≠ [] := by
  intro h
  have hnormal := d.isNormal
  rw [h] at hnormal
  exact hnormal

/-- The path of a document has that document. -/
theorem ofPath_path (d : DocumentUri) : ofPath d.path = .ok d :=
  (ofPath_eq_ok_iff d.path_ne_nil d.isScalar).2 (Path.normalize_eq_self d.isNormal).symm

/-- Documents are compared by their paths. -/
theorem eq_iff_path_eq {d e : DocumentUri} : d = e ↔ d.path = e.path := by
  constructor
  · exact congrArg path
  · intro h
    cases d
    cases e
    cases h
    rfl

/-- A surrogate is no scalar value. -/
theorem not_isScalar_of_isSurrogate {p : Text} {c : Nat} (hc : c ∈ p) (h : IsSurrogate c) :
    ¬ Text.IsScalar p := by
  intro hp
  have hscalar := hp c hc
  unfold IsScalar at hscalar
  unfold IsSurrogate at h
  omega

/-- **The documents of paths**: a path that is not empty and has no surrogates has a document,
whose path is settled and has the same document; two such paths have one document exactly if, with
the slash in front, they are the same but for the case of a drive; a path with a surrogate is
rejected, and so is the empty one. -/
theorem ofPath_normalForm :
    (∀ a : Text, a ≠ [] → Text.IsScalar a →
      ∃ d, ofPath a = .ok d ∧ Path.IsSettled d.path ∧ ofPath d.path = .ok d)
    ∧ (∀ (a b : Text) (d e : DocumentUri), ofPath a = .ok d → ofPath b = .ok e →
      (d = e ↔ Path.SameButDriveCase (Path.slashed a) (Path.slashed b)))
    ∧ (∀ a : Text, (∃ c ∈ a, IsSurrogate c) →
      ofPath a = .error (.invalidUri (.surrogatePath a)))
    ∧ ofPath [] = .error .emptyUriPath := by
  refine ⟨fun a hne ha => ?_, fun a b d e hd he => ?_, fun a h => ?_, rfl⟩
  · exact ⟨_, ofPath_eq_ok hne ha, (ofScalars a ha).isNormal.isSettled, ofPath_path _⟩
  · rw [eq_iff_path_eq, path_of_ofPath hd, path_of_ofPath he, Path.normalize_eq_iff]
  · obtain ⟨c, hc, hsurrogate⟩ := h
    have hne : a ≠ [] := List.ne_nil_of_mem hc
    unfold ofPath
    rw [if_neg hne, dif_neg (not_isScalar_of_isSurrogate hc hsurrogate)]

/-- With a slash or without, and with the drive in upper or in lower case, a path has one
document; behind two slashes the same letter is no drive. -/
theorem ofPath_normalForm_drives :
    ∃ d e : DocumentUri, ofPath "C:/x" = .ok d ∧ ofPath "/c:/x" = .ok d ∧ ofPath "//c:/x" = .ok e
      ∧ Path.IsSettled d.path ∧ Path.IsSettled e.path ∧ d ≠ e
      ∧ ofPath [0x61, 0xD800] = .error (.invalidUri (.surrogatePath [0x61, 0xD800])) := by
  obtain ⟨hok, hsame, hsurrogate, -⟩ := ofPath_normalForm
  obtain ⟨d, hd, hsettled, -⟩ := hok "C:/x" (by decide) (by decide)
  obtain ⟨d', hd', -⟩ := hok "/c:/x" (by decide) (by decide)
  obtain ⟨e, he, hsettled', -⟩ := hok "//c:/x" (by decide) (by decide)
  obtain rfl : d = d' := (hsame _ _ _ _ hd hd').2 (.drive (by decide) (by decide) (by decide))
  refine ⟨d, e, hd, hd', he, hsettled, hsettled', fun hde => ?_,
    hsurrogate _ ⟨0xD800, by decide, by decide⟩⟩
  have hpaths := congrArg path hde
  rw [path_of_ofPath hd, path_of_ofPath he] at hpaths
  exact absurd hpaths (by decide)

end DocumentUri

end EditorWire
