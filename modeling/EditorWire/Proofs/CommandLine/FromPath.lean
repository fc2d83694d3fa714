/-
  EditorWire.Proofs.CommandLine.FromPath — the URIs of paths, as they are printed.

      uri from-path … PATH…

  Every path that is not empty and has octets comes out as its URI, a line for each,
  and the line is read back as the document of the path.  Every other path is
  reported.  None of them is hidden by another.

  Main results:
    * `isNameable_iff` — which paths have a document.
    * `run_fromPath` — what is printed, for all paths that can be given.
-/
import EditorWire.Proofs.CommandLine.Batches
import EditorWire.Proofs.DocumentUri.LocalPath

namespace EditorWire

/-! ## §1. Local paths with a document. -/

namespace PathStyle

/-- Separators are no surrogates. -/
theorem isScalar_of_toSlash {style : PathStyle} {p : Text} (h : Text.IsScalar (style.toSlash p)) :
    Text.IsScalar p := by
  cases style with
  | posix => exact h
  | windows =>
    intro c hc
    have hslash := h _ (List.mem_map_of_mem hc)
    by_cases hbackslash : c = Ascii.backslash
    · rw [hbackslash]
      decide
    · rwa [if_neg hbackslash] at hslash

end PathStyle

namespace DocumentUri

open CommandLine (IsTame)

/-- What a local path has to be. -/
def IsNameable (p : Text) : Prop := p ≠ [] ∧ Text.IsScalar p

instance : DecidablePred IsNameable := fun p =>
  inferInstanceAs (Decidable (p ≠ [] ∧ Text.IsScalar p))

/-- **The paths with a document are those that are not empty and have octets**, in both styles. -/
theorem isNameable_iff (style : PathStyle) (p : Text) :
    IsNameable p ↔ ∃ d, ofLocalPath style p = .ok d := by
  constructor
  · rintro ⟨hne, hp⟩
    rw [ofLocalPath_of_ne_nil hne]
    exact ⟨_, ofPath_eq_ok (PathStyle.toSlash_ne_nil hne) (PathStyle.isScalar_toSlash hp)⟩
  · rintro ⟨d, hd⟩
    by_cases hne : p = []
    · rw [hne] at hd
      cases hd
    rw [ofLocalPath_of_ne_nil hne] at hd
    have hslash : Text.IsScalar (style.toSlash p) := by
      unfold ofPath at hd
      split at hd
      · cases hd
      split at hd
      · assumption
      · cases hd
    exact ⟨hne, PathStyle.isScalar_of_toSlash hslash⟩

/-- A URI is written in printing characters of ASCII alone. -/
theorem toUrl_bounds (d : DocumentUri) : ∀ c ∈ d.toUrl, 0x20 < c ∧ c < 0x7F := by
  have hpath := Percent.isWritten_of_mem_encode (Path.isScalar_rooted d.isScalar)
  have hfront : ∀ c ∈ fileScheme ++ Text.ofString "://", 0x20 < c ∧ c < 0x7F := by decide
  refine List.forall_mem_append.2 ⟨hfront, fun c hc => ?_⟩
  obtain ⟨hlow, hhigh, -, -⟩ := (hpath c hc).bounds
  exact ⟨hlow, hhigh⟩

theorem isScalar_toUrl (d : DocumentUri) : Text.IsScalar d.toUrl := fun c hc => by
  have hbounds := d.toUrl_bounds c hc
  exact .inl (by omega)

theorem shown_toUrl (color : Bool) (d : DocumentUri) :
    CommandLine.shown color d.toUrl = d.toUrl := by
  have hescape : Ascii.escape ∉ d.toUrl := fun hmem =>
    absurd (d.toUrl_bounds _ hmem).1 (by decide)
  unfold CommandLine.shown
  rw [CommandLine.plain_eq_self hescape, ite_self]

/-! ## §2. What is reported of paths. -/

/-- A path is refused because it is empty, or because it has no octets. -/
theorem failure_of_ofPath {p : Text} {failure : Failure} (h : ofPath p = .error failure) :
    (p = [] ∧ failure = .emptyUriPath) ∨ failure = .invalidUri (.surrogatePath p) := by
  unfold ofPath at h
  split at h
  · next hempty => exact .inl ⟨hempty, (Except.error.inj h).symm⟩
  split at h
  · cases h
  · exact .inr (Except.error.inj h).symm

/-- A local path that has no octets is reported with slashes for its separators. -/
theorem failure_of_ofLocalPath {style : PathStyle} {p : Text} {failure : Failure}
    (h : ofLocalPath style p = .error failure) :
    failure = .emptyLocalPath ∨ failure = .invalidUri (.surrogatePath (style.toSlash p)) := by
  by_cases hne : p = []
  · rw [hne] at h
    exact .inl (Except.error.inj h).symm
  · rw [ofLocalPath_of_ne_nil hne] at h
    rcases failure_of_ofPath h with ⟨hempty, -⟩ | hsurrogate
    · exact absurd hempty (PathStyle.toSlash_ne_nil hne)
    · exact .inr hsurrogate

theorem isTame_surrogatePath (p : Text) : IsTame (Fault.message (.surrogatePath p)) :=
  IsTame.append_quote (by decide) p

theorem isTame_of_ofPath {p : Text} {failure : Failure} (h : ofPath p = .error failure) :
    IsTame failure.message := by
  rcases failure_of_ofPath h with ⟨-, rfl⟩ | rfl
  · decide
  · exact isTame_surrogatePath p

theorem isTame_of_ofLocalPath {style : PathStyle} {p : Text} {failure : Failure}
    (h : ofLocalPath style p = .error failure) : IsTame failure.message := by
  rcases failure_of_ofLocalPath h with rfl | rfl
  · decide
  · exact isTame_surrogatePath (style.toSlash p)

end DocumentUri

namespace CommandLine

open DocumentUri

/-! ## §3. Requests. -/

theorem takeOptions_of_argument {known : Text → Bool} {a : Text} (h : looksLikeOption a = false)
    (rest : List Text) : takeOptions known (a :: rest) = some ([], a :: rest) := by
  have hne : a ≠ endOfOptions := by
    rintro rfl
    exact absurd h (by decide)
  rw [takeOptions, if_neg hne, h]
  rfl

theorem parse_uri {arguments : List Text} {request : Request}
    (h : parseUri arguments = some request) :
    parse (Text.ofString "uri" :: arguments) = some ⟨false, request⟩ := by
  have hrequest : parseRequest (Text.ofString "uri" :: arguments) = some request := by
    rw [parseRequest, if_pos rfl, h]
  unfold parse
  rw [takeOptions_of_argument (by decide)]
  simp only [Option.bind_eq_bind, Option.bind_some, hrequest]
  rfl

/-- Arguments that ask for the URIs of paths, in a style. -/
def fromPathArguments (style : PathStyle) (paths : List Text) : List Text :=
  Text.ofString "uri" :: Text.ofString "from-path" :: styleOption :: style.name :: endOfOptions
    :: paths

/-- Any paths can be given, without a style or with one. -/
theorem parse_fromPath {paths : List Text} (h : paths ≠ []) (style : PathStyle) :
    parse (Text.ofString "uri" :: Text.ofString "from-path" :: endOfOptions :: paths)
        = some ⟨false, .fromPath .host paths⟩
      ∧ parse (fromPathArguments style paths) = some ⟨false, .fromPath style paths⟩ := by
  have hpaths : atLeastOne paths = some paths := if_neg (by simp [h])
  have hcommand : (Text.ofString "from-path" = Text.ofString "to-path") = False :=
    eq_false (by decide)
  constructor
  · refine parse_uri ?_
    unfold parseUri
    rw [takeOptions_of_argument (by decide)]
    simp only [Option.bind_eq_bind, Option.bind_some, hcommand, if_false, if_true, parseFromPath,
      scan_endOfOptions, List.getLast?_nil, hpaths]
  · refine parse_uri ?_
    have hscan : scan [] [styleOption] (styleOption :: style.name :: endOfOptions :: paths)
        = some ⟨[(styleOption, style.name)], paths⟩ := by
      have hcut : Text.cutAround Ascii.equals styleOption = (styleOption, none) := by decide
      rw [scan, if_neg (by decide), if_neg (by decide), hcut]
      simp only [List.not_mem_nil, if_false, List.mem_singleton, if_true, scan_endOfOptions]
      rfl
    have hname : PathStyle.ofName? style.name = some style := by
      cases style <;> decide
    unfold parseUri
    rw [takeOptions_of_argument (by decide)]
    simp only [Option.bind_eq_bind, Option.bind_some, hcommand, if_false, if_true, parseFromPath,
      hscan, List.getLast?_singleton, hname, hpaths]

/-! ## §4. Runs. -/

/-- A batch of paths is prepared for each of them. -/
theorem prepared_urlOfPath (style : PathStyle) (p : Text) :
    Prepared [.value] (urlOfPath style) p where
  family failure h := by
    rcases failure_of_ofLocalPath (Result.map_eq_error_iff.1 h) with rfl | rfl <;> rfl
  tame failure h := isTame_of_ofLocalPath (Result.map_eq_error_iff.1 h)
  scalar t h := by
    obtain ⟨d, -, rfl⟩ := Result.map_eq_ok_iff.1 h
    exact isScalar_toUrl d

theorem print_fromPathReport (color verbose : Bool) (style : PathStyle) (paths : List Text) :
    (fromPathReport style paths).print color verbose
      = ⟨exitCode (failures (ofLocalPath style) paths),
          (converted (ofLocalPath style) paths).flatMap fun d => ended d.toUrl,
          (failures (ofLocalPath style) paths).flatMap fun failure =>
            reportText color failure.message,
          none⟩ := by
  have hprint := print_batch_map color verbose toUrl (List.forall_mem_nil IsTame)
    fun p (_ : p ∈ paths) => prepared_urlOfPath style p
  have hlogged : logged verbose [] = [] := by cases verbose <;> rfl
  simp only [shown_toUrl, hlogged] at hprint
  exact hprint

/-- **Every path is reported.**  The paths that are not empty and have octets come out as the URIs of
their documents, each on a line of its own that is read back as the document, and each of the others
is reported on a line of its own, all in the order in which they were given. -/
theorem run_fromPath (color : Bool) (read : Text → Option Octets) {arguments : List Text}
    {verbose : Bool} {style : PathStyle} {paths : List Text}
    (h : parse arguments = some ⟨verbose, .fromPath style paths⟩) :
    ∃ documents faults,
      List.Forall₂ (fun p d => ofLocalPath style p = .ok d ∧ ofUrl d.toUrl = .ok d
          ∧ ∀ c ∈ d.toUrl, 0x20 < c ∧ c < 0x7F)
        (paths.filter IsNameable) documents
      ∧ List.Forall₂ (fun p failure => ofLocalPath style p = .error failure
          ∧ Ascii.newline ∉ failure.message)
        (paths.filter fun p => ¬ IsNameable p) faults
      ∧ run color read arguments
        = ⟨if ∀ p ∈ paths, IsNameable p then 0 else 1,
            documents.flatMap fun d => ended d.toUrl,
            faults.flatMap fun failure => reportText color failure.message,
            none⟩ := by
  refine ⟨converted (ofLocalPath style) paths, failures (ofLocalPath style) paths, ?_, ?_, ?_⟩
  · refine (forall₂_converted (isNameable_iff style) paths).imp fun p d hd => ?_
    exact ⟨hd, ofUrl_toUrl d, d.toUrl_bounds⟩
  · refine (forall₂_failures (isNameable_iff style) paths).imp fun p failure hfailure => ?_
    exact ⟨hfailure, (isTame_of_ofLocalPath hfailure).newline_not_mem⟩
  · have hexit : exitCode (failures (ofLocalPath style) paths)
        = if ∀ p ∈ paths, IsNameable p then 0 else 1 := by
      refine if_congr ((failures_eq_nil_iff _ paths).trans ?_) rfl rfl
      exact forall₂_congr fun p _ => (isNameable_iff style p).symm
    unfold run
    simp only [h, Request.report, print_fromPathReport, hexit]

/-- A path with a document, an empty one, and one with a surrogate. -/
def mixedPaths : List Text := ["C:\\a b", [], [0x2F, 0xD800]]

/-- Neither of the others hides the first. -/
theorem run_fromPath_mixed :
    parse (fromPathArguments .windows mixedPaths) = some ⟨false, .fromPath .windows mixedPaths⟩
    ∧ run false (fun _ => none) (fromPathArguments .windows mixedPaths)
      = ⟨1, ended "file:///c%3A/a%20b",
          ended "❌ Cannot build a document URI from an empty path"
            ++ ended "❌ Path is not valid UTF-8 text: '/\\ud800'",
          none⟩ := by
  have hne : mixedPaths ≠ [] := by decide
  have hparse := (parse_fromPath hne .windows).2
  obtain ⟨documents, faults, hdocuments, hfaults, hrun⟩ :=
    run_fromPath false (fun _ => none) hparse
  have hnameable : mixedPaths.filter IsNameable = [Text.ofString "C:\\a b"] := by decide
  have hothers : mixedPaths.filter (fun p => ¬ IsNameable p) = [[], [0x2F, 0xD800]] := by decide
  rw [hnameable] at hdocuments
  rw [hothers] at hfaults
  -- one document, and its URI
  obtain ⟨d, _, ⟨hd, -, -⟩, hnil, rfl⟩ := List.forall₂_cons_left_iff.1 hdocuments
  obtain rfl := List.forall₂_nil_left_iff.1 hnil
  have hurl : d.toUrl = "file:///c%3A/a%20b" := by
    have hwritten : urlOfPath .windows "C:\\a b" = .ok "file:///c%3A/a%20b" := by cbv
    unfold urlOfPath at hwritten
    rw [hd] at hwritten
    exact Except.ok.inj hwritten
  -- two failures, and their reports
  obtain ⟨empty, _, ⟨hempty, -⟩, hlast, rfl⟩ := List.forall₂_cons_left_iff.1 hfaults
  obtain ⟨broken, _, ⟨hbroken, -⟩, hnone, rfl⟩ := List.forall₂_cons_left_iff.1 hlast
  obtain rfl := List.forall₂_nil_left_iff.1 hnone
  obtain rfl := Except.error.inj (hempty : Except.error Failure.emptyLocalPath = _)
  have hsurrogate : ofLocalPath .windows [0x2F, 0xD800]
      = .error (.invalidUri (.surrogatePath [0x2F, 0xD800])) := by cbv
  rw [hsurrogate] at hbroken
  obtain rfl := Except.error.inj hbroken
  have hfirst : reportText false Failure.emptyLocalPath.message
      = ended "❌ Cannot build a document URI from an empty path" := by decide +kernel
  have hsecond : reportText false (Failure.invalidUri (.surrogatePath [0x2F, 0xD800])).message
      = ended "❌ Path is not valid UTF-8 text: '/\\ud800'" := by decide +kernel
  refine ⟨hparse, hrun.trans ?_⟩
  rw [if_neg (by decide)]
  simp only [List.flatMap_cons, List.flatMap_nil, List.append_nil, hurl, hfirst, hsecond]

end CommandLine

end EditorWire
