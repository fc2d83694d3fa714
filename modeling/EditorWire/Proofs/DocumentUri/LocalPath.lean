/-
  EditorWire.Proofs.DocumentUri.LocalPath — local paths on their way over the wire.

  A local path is made a document, written as its URI, read on the other side and
  made a local path again:

      local path  →  document  →  URI  →  document  →  local path

  The first step turns the separators of the style into slashes, the last one turns
  them back.  What comes out need not be what went in, for the document keeps the
  normal form: a root is added, a drive letter put in lower case, and where
  backslashes are separators every slash comes back as one.  But it is another path of
  the same document, and the next trip leaves it alone.

  Main results:
    * `ofLocalPath_toLocalPath` — the local path of a document has that document.
    * `localPath_trip` — one trip over the wire, for both styles and every path.
-/
import EditorWire.Proofs.DocumentUri.NormalForm
import EditorWire.Proofs.DocumentUri.RoundTrip

namespace EditorWire

/-! ## §1. Separators. -/

namespace PathStyle

/-- Where backslashes are separators, none is left among the slashes. -/
theorem backslash_not_mem_toSlash (p : Text) : Ascii.backslash ∉ windows.toSlash p := by
  intro h
  obtain ⟨c, -, hc⟩ := List.mem_map.1 h
  split at hc
  · exact absurd hc (by decide)
  · next hne => exact hne hc

/-- And no slash among the backslashes. -/
theorem slash_not_mem_fromSlash (p : Text) : Ascii.slash ∉ windows.fromSlash p := by
  intro h
  obtain ⟨c, -, hc⟩ := List.mem_map.1 h
  split at hc
  · exact absurd hc (by decide)
  · next hne => exact hne hc

theorem toSlash_ne_nil {style : PathStyle} {p : Text} (h : p ≠ []) : style.toSlash p ≠ [] := by
  cases style with
  | posix => exact h
  | windows => exact fun hnil => h (List.map_eq_nil_iff.1 hnil)

theorem fromSlash_ne_nil {style : PathStyle} {p : Text} (h : p ≠ []) : style.fromSlash p ≠ [] := by
  cases style with
  | posix => exact h
  | windows => exact fun hnil => h (List.map_eq_nil_iff.1 hnil)

theorem isScalar_toSlash {style : PathStyle} {p : Text} (h : Text.IsScalar p) :
    Text.IsScalar (style.toSlash p) := by
  cases style with
  | posix => exact h
  | windows =>
    intro c hc
    obtain ⟨b, hb, rfl⟩ := List.mem_map.1 hc
    split
    · decide
    · exact h b hb

/-- The path has slashes for all the separators of the style. -/
def IsSlashed (style : PathStyle) (p : Text) : Prop := style = windows → Ascii.backslash ∉ p

theorem isSlashed_toSlash (style : PathStyle) (p : Text) : style.IsSlashed (style.toSlash p) := by
  rintro rfl
  exact backslash_not_mem_toSlash p

/-- **Slashes that were made separators are made slashes again**, if nothing else was one. -/
theorem toSlash_fromSlash {style : PathStyle} {p : Text} (h : style.IsSlashed p) :
    style.toSlash (style.fromSlash p) = p := by
  cases style with
  | posix => rfl
  | windows =>
    show (p.map _).map _ = p
    rw [List.map_map]
    refine (List.map_congr_left fun c hc => ?_).trans (List.map_id p)
    have hc' : c ≠ Ascii.backslash := fun heq => h rfl (heq ▸ hc)
    show (if (if c = Ascii.slash then Ascii.backslash else c) = Ascii.backslash
      then Ascii.slash else _) = c
    by_cases hslash : c = Ascii.slash
    · rw [if_pos hslash, if_pos rfl, hslash]
    · rw [if_neg hslash, if_neg hc']

end PathStyle

namespace Path

/-- What stands in a normal form stood in the path, or is its root or its drive letter. -/
theorem mem_of_mem_normalize {p : Text} {c : Nat} (h : c ∈ normalize p) :
    c ∈ p ∨ c = Ascii.slash ∨ CodePoint.isLower c = true := by
  have hslashed : ∀ x ∈ slashed p, x ∈ p ∨ x = Ascii.slash := by
    intro x hx
    unfold slashed at hx
    split at hx
    · exact .inl hx
    · exact (List.mem_cons.1 hx).symm
  obtain ⟨r, hr⟩ := exists_slashed_eq_cons p
  rw [← normalize_slashed, hr] at h
  rw [hr] at hslashed
  by_cases hdrive : HasDrive r
  · obtain ⟨d, s, rfl, hd⟩ := hdrive
    rw [normalize_slash_drive hd] at h
    rcases List.mem_cons.1 h with rfl | h
    · exact .inr (.inr (isLower_toLower hd))
    · rcases hslashed c (List.mem_cons_of_mem _ (List.mem_cons_of_mem _ h)) with hc | hc
      · exact .inl hc
      · exact .inr (.inl hc)
  · rw [normalize_slash_of_not_hasDrive hdrive] at h
    rcases hslashed c h with hc | hc
    · exact .inl hc
    · exact .inr (.inl hc)

/-- Normalising makes no separators. -/
theorem isSlashed_normalize {style : PathStyle} {p : Text} (h : style.IsSlashed p) :
    style.IsSlashed (normalize p) := by
  intro hstyle hmem
  rcases mem_of_mem_normalize hmem with hp | hslash | hlower
  · exact h hstyle hp
  · exact absurd hslash (by decide)
  · exact absurd hlower (by decide)

end Path

/-! ## §2. Documents of local paths. -/

namespace DocumentUri

variable {style : PathStyle} {p : Text} {d : DocumentUri}

/-- The document of a local path is that of its text with slashes. -/
theorem ofLocalPath_of_ne_nil (h : p ≠ []) : ofLocalPath style p = ofPath (style.toSlash p) :=
  if_neg h

/-- The document of a local path has slashes for its separators. -/
theorem isSlashed_of_ofLocalPath (h : ofLocalPath style p = .ok d) : style.IsSlashed d.path := by
  unfold ofLocalPath at h
  split at h
  · cases h
  · rw [path_of_ofPath h]
    exact Path.isSlashed_normalize (style.isSlashed_toSlash p)

/-- **The local path of a document has that document**, where backslashes are no part of names. -/
theorem ofLocalPath_toLocalPath (h : style.IsSlashed d.path) :
    ofLocalPath style (d.toLocalPath style) = .ok d := by
  show ofLocalPath style (style.fromSlash d.path) = _
  rw [ofLocalPath_of_ne_nil (PathStyle.fromSlash_ne_nil d.path_ne_nil),
    PathStyle.toSlash_fromSlash h]
  exact ofPath_path d

/-! ## §3. The trip. -/

/-- The local path that comes back when a local path goes over the wire as a URI. -/
def trip (style : PathStyle) (p : Text) : Except Failure Text := do
  let sent ← ofLocalPath style p
  let received ← ofUrl sent.toUrl
  .ok (received.toLocalPath style)

/-- What comes back is the local path of the document that was sent. -/
theorem trip_of_ofLocalPath (h : ofLocalPath style p = .ok d) :
    trip style p = .ok (d.toLocalPath style) := by
  unfold trip
  rw [h]
  show (ofUrl d.toUrl >>= _) = _
  rw [ofUrl_toUrl]
  rfl

/-- **Local paths survive the trip over the wire**: one comes back that has the document that was
sent, and every further trip gives it again; it has none but the separators of the style, and
where these are slashes a path that is rooted at one and not at a drive comes back as it was. -/
theorem localPath_trip (style : PathStyle) {p : Text} (hne : p ≠ []) (hp : Text.IsScalar p) :
    ∃ d q, ofLocalPath style p = .ok d ∧ trip style p = .ok q
      ∧ ofLocalPath style q = .ok d ∧ trip style q = .ok q
      ∧ (style = .windows → Ascii.slash ∉ q)
      ∧ (style = .posix → ∀ r, p = Ascii.slash :: r → ¬ Path.HasDrive r → q = p) := by
  obtain ⟨d, hd⟩ : ∃ d, ofLocalPath style p = .ok d := by
    rw [ofLocalPath_of_ne_nil hne]
    exact ⟨_, ofPath_eq_ok (PathStyle.toSlash_ne_nil hne) (PathStyle.isScalar_toSlash hp)⟩
  have hback := ofLocalPath_toLocalPath (isSlashed_of_ofLocalPath hd)
  refine ⟨d, d.toLocalPath style, hd, trip_of_ofLocalPath hd, hback, trip_of_ofLocalPath hback,
    ?_, ?_⟩
  · rintro rfl
    exact PathStyle.slash_not_mem_fromSlash d.path
  · rintro rfl r rfl hr
    -- without a drive a rooted path is its own normal form
    rw [ofLocalPath_of_ne_nil hne] at hd
    show d.path = _
    rw [path_of_ofPath hd]
    exact Path.normalize_slash_of_not_hasDrive hr

/-- A path with both separators behind one in front of a drive, in the style that has both. -/
theorem localPath_trip_mixed :
    ("/C:\\a/b" : Text) ≠ [] ∧ Text.IsScalar "/C:\\a/b"
      ∧ ∃ d, ofLocalPath .windows "/C:\\a/b" = .ok d ∧ trip .windows "/C:\\a/b" = .ok "c:\\a\\b"
        ∧ ofLocalPath .windows "c:\\a\\b" = .ok d ∧ trip .windows "c:\\a\\b" = .ok "c:\\a\\b" := by
  have hne : ("/C:\\a/b" : Text) ≠ [] := by decide
  have hscalar : Text.IsScalar "/C:\\a/b" := by decide
  obtain ⟨d, q, hd, htrip, hback, hagain, -⟩ := localPath_trip .windows hne hscalar
  have hq : q = "c:\\a\\b" := by
    rw [trip_of_ofLocalPath hd, toLocalPath] at htrip
    rw [ofLocalPath_of_ne_nil hne] at hd
    rw [← Except.ok.inj htrip, path_of_ofPath hd]
    rfl
  subst hq
  exact ⟨hne, hscalar, d, hd, htrip, hback, hagain⟩

end DocumentUri

end EditorWire
