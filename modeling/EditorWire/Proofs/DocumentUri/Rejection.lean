/-
  EditorWire.Proofs.DocumentUri.Rejection — how the reading of a URI fails.

  The checks of `ofUrl` are made one after another, and each that is not passed
  rejects the URI with a reason.  A path goes through one more step, in which it is
  written in octets, and a surrogate has none:

      path  =  …            no path, broken escape, no UTF-8   →  rejected raw reason
      path  =  … U+D800 …   whole escapes                      →  unencodable

  The second kind of failure does not hold the URI.  The grammar says on which
  URIs it comes: those that are as they should be up to the surrogates.

  Main results:
    * `ofWrittenPath_error` — how a written path fails.
    * `ofUrl_error` — how a URI fails: by rejection, or in its path.
    * `ofUrl_unencodable_iff` — which URIs have no octets.
    * `ofUrl_rejects_iff` — on all others every failure is a rejection that holds the URI, and
      there is no third way to fail.
-/
import EditorWire.Proofs.DocumentUri.Grammar

namespace EditorWire.DocumentUri

/-! ## §1. Rejections. -/

/-- The failure rejects the URI and holds it. -/
def Rejects (raw : Text) (failure : Failure) : Prop :=
  ∃ fault, failure = .invalidUri fault ∧ fault.uri? = some raw

theorem rejects_rejected (raw : Text) (reason : Rejection) :
    Rejects raw (.invalidUri (.rejected raw reason)) :=
  ⟨.rejected raw reason, rfl, rfl⟩

theorem not_rejects_unencodable (raw : Text) (fault : Utf8.Unencodable) :
    ¬ Rejects raw (.unencodable fault) := by
  intro h
  obtain ⟨_, heq, -⟩ := h
  cases heq

/-! ## §2. Written paths. -/

/-- A path whose escapes are whole, with a code point in it that has no octets. -/
structure IsUnencodable (path : Text) : Prop where
  whole : Percent.EscapesAreWhole path
  surrogate : ¬ Text.IsScalar path

theorem ofPath_ne_error {t : Text} (hne : t ≠ []) (ht : Text.IsScalar t) (failure : Failure) :
    ofPath t ≠ .error failure := by
  rw [(ofPath_eq_ok_iff (d := ofScalars t ht) hne ht).2 rfl]
  intro h
  cases h

/-- **A written path is rejected, or has no octets.** -/
theorem ofWrittenPath_error {raw path : Text} {failure : Failure}
    (h : ofWrittenPath raw path = .error failure) :
    Rejects raw failure ∨ (IsUnencodable path ∧ ∃ fault, failure = .unencodable fault) := by
  unfold ofWrittenPath at h
  -- no path
  split at h
  · obtain rfl := Except.error.inj h
    exact .inl (rejects_rejected raw _)
  next hne =>
  -- a broken escape
  split at h
  · obtain rfl := Except.error.inj h
    exact .inl (rejects_rejected raw _)
  next octets hoctets =>
  have hstands := Percent.decode?_eq_some_iff.1 hoctets
  -- a surrogate
  split at h
  · next fault hfault =>
    have hnot : ¬ Text.IsScalar path := by
      intro hscalar
      rw [Utf8.firstSurrogates?_eq_none_iff.2 hscalar] at hfault
      cases hfault
    exact .inr ⟨⟨Percent.exists_standsFor_iff.1 ⟨octets, hstands⟩, hnot⟩, fault,
      (Except.error.inj h).symm⟩
  -- octets that are no UTF-8
  split at h
  · obtain rfl := Except.error.inj h
    exact .inl (rejects_rejected raw _)
  -- a text is left, and it is not empty
  · next t ht =>
    obtain ⟨hscalar, hencode⟩ := Utf8.decode?_eq_some_iff.1 ht
    have htne : t ≠ [] := by
      intro hnil
      rw [hnil] at hencode
      exact hstands.ne_nil hne hencode.symm
    exact absurd h (ofPath_ne_error htne hscalar failure)

/-- A path without octets fails for that. -/
theorem IsUnencodable.ofWrittenPath {path : Text} (h : IsUnencodable path) (raw : Text) :
    ∃ fault, DocumentUri.ofWrittenPath raw path = .error (.unencodable fault) := by
  have hne : path ≠ [] := by
    intro hnil
    exact h.surrogate fun c hc => absurd hc (by simp [hnil])
  obtain ⟨octets, hstands⟩ := Percent.exists_standsFor_iff.2 h.whole
  obtain ⟨fault, hfault⟩ : ∃ fault, Utf8.firstSurrogates? path = some fault := by
    apply Option.ne_none_iff_exists'.1
    rw [ne_eq, Utf8.firstSurrogates?_eq_none_iff]
    exact h.surrogate
  refine ⟨fault, ?_⟩
  unfold DocumentUri.ofWrittenPath
  simp only [if_neg hne, Percent.decode?_eq_some_iff.2 hstands, hfault]

/-! ## §3. Whole URIs. -/

/-- **A URI is rejected, or everything in front of its path is as it should be.** -/
theorem ofUrl_error {raw : Text} {failure : Failure} (h : ofUrl raw = .error failure) :
    Rejects raw failure
      ∨ ((∀ c ∈ raw, 0x20 < c ∧ c ≠ 0x7F)
        ∧ ∃ parts, Reference.split? raw = some parts ∧ parts.scheme = fileScheme
          ∧ Authority.isLocal parts.authority = true
          ∧ ofWrittenPath raw parts.path = .error failure) := by
  unfold ofUrl at h
  -- unsafe characters, the splitter, the scheme, the authority
  split at h
  · obtain rfl := Except.error.inj h
    exact .inl (rejects_rejected raw _)
  next hany =>
  split at h
  · obtain rfl := Except.error.inj h
    exact .inl (rejects_rejected raw _)
  next parts hparts =>
  split at h
  · obtain rfl := Except.error.inj h
    exact .inl (rejects_rejected raw _)
  next hscheme =>
  split at h
  · obtain rfl := Except.error.inj h
    exact .inl (rejects_rejected raw _)
  next hlocal =>
  have hsafe : ∀ c ∈ raw, 0x20 < c ∧ c ≠ 0x7F := by
    simpa [isUnsafe] using hany
  exact .inr ⟨hsafe, parts, hparts, by simpa using hscheme, by simpa using hlocal, h⟩

/-- The same checks, passed, leave a URI to its path. -/
theorem ofUrl_eq_ofWrittenPath {raw : Text} {parts : Reference}
    (hsafe : ∀ c ∈ raw, 0x20 < c ∧ c ≠ 0x7F) (hparts : Reference.split? raw = some parts)
    (hscheme : parts.scheme = fileScheme) (hlocal : Authority.isLocal parts.authority = true) :
    ofUrl raw = ofWrittenPath raw parts.path := by
  have hany : raw.any isUnsafe = false := by
    simpa [isUnsafe] using hsafe
  unfold ofUrl
  simp [hany, hparts, hscheme, hlocal]

/-- `raw` is the URI of a local document but for the surrogates in its path. -/
inductive NamesSurrogates : Text → Prop where
  | mk {scheme rest tail path behind : Text} :
      (∀ c ∈ scheme ++ Ascii.colon :: rest, 0x20 < c ∧ c ≠ 0x7F) →
      Text.toLower scheme = "file" →
      LocalTail rest tail →
      Text.Cut endsPath tail path behind →
      IsUnencodable path →
      NamesSurrogates (scheme ++ Ascii.colon :: rest)

/-- **A URI has no octets exactly if it names a document but for surrogates.** -/
theorem ofUrl_unencodable_iff {raw : Text} :
    (∃ fault, ofUrl raw = .error (.unencodable fault)) ↔ NamesSurrogates raw := by
  constructor
  · intro h
    obtain ⟨fault, hfault⟩ := h
    rcases ofUrl_error hfault with hrejects | ⟨hsafe, parts, hparts, hscheme, hlocal, hwritten⟩
    · exact absurd hrejects (not_rejects_unencodable raw fault)
    rcases ofWrittenPath_error hwritten with hrejects | ⟨hpath, -⟩
    · exact absurd hrejects (not_rejects_unencodable raw fault)
    -- what is in front of the path is as the grammar has it
    obtain ⟨s, rest, tail, behind, rfl, hs, htail, hcut⟩ :=
      exists_local_parts_iff.1 ⟨parts, hparts, hscheme, hlocal, rfl⟩
    exact .mk hsafe hs htail hcut hpath
  · intro h
    obtain ⟨hsafe, hs, htail, hcut, hpath⟩ := h
    obtain ⟨parts, hparts, hscheme, hlocal, rfl⟩ :=
      exists_local_parts_iff.2 ⟨_, _, _, _, rfl, hs, htail, hcut⟩
    rw [ofUrl_eq_ofWrittenPath hsafe hparts hscheme hlocal]
    exact hpath.ofWrittenPath _

/-- There is no third way to fail. -/
theorem rejects_or_unencodable {raw : Text} {failure : Failure} (h : ofUrl raw = .error failure) :
    Rejects raw failure ∨ ∃ fault, failure = .unencodable fault := by
  rcases ofUrl_error h with hrejects | ⟨-, parts, -, -, -, hwritten⟩
  · exact .inl hrejects
  rcases ofWrittenPath_error hwritten with hrejects | ⟨-, hfault⟩
  · exact .inl hrejects
  · exact .inr hfault

/-- **A URI is rejected, or has no octets**, and every failure is a rejection that holds the URI
exactly if no surrogate stands in the way of its path. -/
theorem ofUrl_rejects_iff (raw : Text) :
    (∀ failure, ofUrl raw = .error failure →
      Rejects raw failure ∨ ∃ fault, failure = .unencodable fault)
    ∧ ((∀ failure, ofUrl raw = .error failure → Rejects raw failure)
      ↔ ¬ NamesSurrogates raw) := by
  refine ⟨fun failure => rejects_or_unencodable, ?_⟩
  rw [← ofUrl_unencodable_iff]
  constructor
  · intro h hfails
    obtain ⟨fault, hfault⟩ := hfails
    exact not_rejects_unencodable raw fault (h _ hfault)
  · intro hnone failure h
    rcases rejects_or_unencodable h with hrejects | ⟨fault, rfl⟩
    · exact hrejects
    · exact absurd ⟨fault, h⟩ hnone

/-- A URI with a surrogate at the end of its path. -/
def surrogateUrl : Text := Text.ofString "file:///a" ++ [0xD800]

/-- That URI has no octets, and the failure does not hold it. -/
theorem not_rejects_surrogateUrl :
    ofUrl surrogateUrl = .error (.unencodable ⟨2, 1, 0xD800⟩)
      ∧ ¬ ∀ failure, ofUrl surrogateUrl = .error failure → Rejects surrogateUrl failure := by
  have hfails : ofUrl surrogateUrl = .error (.unencodable ⟨2, 1, 0xD800⟩) := by cbv
  exact ⟨hfails, fun h => not_rejects_unencodable _ _ (h _ hfails)⟩

end EditorWire.DocumentUri
