/-
  EditorWire.Proofs.CommandLine.ToPath — the paths of URIs, as they are printed.

      uri to-path … URI…

  Every URI that is accepted comes out as its path, and every other one is reported,
  but for two cases.  The first is a URI that names a document but for surrogates:
  its failure is not the one the command is prepared for, and hides what became of
  all others.  The second is a path with a control sequence, which is taken out where
  the output is no terminal.

  Main results:
    * `isTame_of_ofUrl` — a report holds nothing that a stream changes.
    * `run_toPath` — what is printed, and exactly when every URI is reported.
-/
import EditorWire.Proofs.CommandLine.FromPath
import EditorWire.Proofs.DocumentUri.Rejection

namespace EditorWire

/-! ## §1. What is reported of URIs. -/

namespace DocumentUri

open CommandLine

/-- A scheme is made of letters, digits and three other characters. -/
theorem isTame_splitScheme (t : Text) : IsTame (Reference.splitScheme t).1 := by
  have hnil : IsTame [] := List.forall_mem_nil _
  unfold Reference.splitScheme
  split
  · next c s rest _ =>
    split
    · next hscheme =>
      rw [Bool.and_eq_true, List.all_eq_true] at hscheme
      have hcharacter : ∀ y ∈ c :: s, Reference.isSchemeCharacter y = true := by
        refine List.forall_mem_cons.2 ⟨?_, hscheme.2⟩
        simp [Reference.isSchemeCharacter, hscheme.1]
      refine isTame_of_bounds fun x hx => ?_
      obtain ⟨y, hy, rfl⟩ := List.mem_map.1 hx
      have hbounds := hcharacter y hy
      simp only [Reference.isSchemeCharacter, CodePoint.isLetter, CodePoint.isDigit,
        CodePoint.isUpper, CodePoint.isLower, Ascii.plus, Ascii.hyphen, Ascii.dot, Bool.or_eq_true,
        Bool.and_eq_true, decide_eq_true_eq, beq_iff_eq] at hbounds
      simp only [CodePoint.toLower, CodePoint.isUpper, Bool.and_eq_true, decide_eq_true_eq]
      split <;> omega
    · exact hnil
  · exact hnil

theorem scheme_of_split? {raw : Text} {parts : Reference} (h : Reference.split? raw = some parts) :
    parts.scheme = (Reference.splitScheme raw).1 := by
  unfold Reference.split? at h
  simp only at h
  split at h
  · obtain rfl := Option.some.inj h
    rfl
  · cases h

theorem isTame_of_ofWrittenPath {raw p : Text} {fault : Fault}
    (h : ofWrittenPath raw p = .error (.invalidUri fault)) : IsTame fault.message := by
  unfold ofWrittenPath at h
  -- no path, the escapes, surrogates, the octets
  split at h
  · cases h
    exact IsTame.append_quote (by decide) raw
  split at h
  · cases h
    exact IsTame.append_quote (by decide) raw
  split at h
  · cases h
  split at h
  · cases h
    exact IsTame.append_quote (by decide) raw
  · exact isTame_of_ofPath h

/-- **The report of a rejected URI holds nothing that a stream changes**, whatever the URI holds:
it is shown between quotes. -/
theorem isTame_of_ofUrl {raw : Text} {fault : Fault}
    (h : ofUrl raw = .error (.invalidUri fault)) : IsTame fault.message := by
  unfold ofUrl at h
  -- unsafe characters, the splitter, the scheme, the authority
  split at h
  · cases h
    exact IsTame.append_quote (by decide) raw
  split at h
  · cases h
    exact IsTame.append_quote (by decide) raw
  next parts hparts =>
  split at h
  · cases h
    have hscheme : IsTame parts.scheme := by
      rw [scheme_of_split? hparts]
      exact isTame_splitScheme raw
    exact ((IsTame.append (by decide) hscheme).append (by decide)).append_quote raw
  split at h
  · cases h
    exact IsTame.append_quote (by decide) raw
  · exact isTame_of_ofWrittenPath h

end DocumentUri

namespace CommandLine

open DocumentUri

/-! ## §2. Requests. -/

/-- Arguments that ask for the paths of URIs. -/
def toPathArguments (uris : List Text) : List Text :=
  Text.ofString "uri" :: Text.ofString "to-path" :: endOfOptions :: uris

/-- Any URIs can be given. -/
theorem parse_toPath {uris : List Text} (h : uris ≠ []) :
    parse (toPathArguments uris) = some ⟨false, .toPath uris⟩ := by
  refine parse_uri ?_
  have huris : atLeastOne uris = some uris := if_neg (by simp [h])
  unfold parseUri
  rw [takeOptions_of_argument (by decide)]
  simp only [Option.bind_eq_bind, Option.bind_some, if_true, parseToPath, scan_endOfOptions, huris]

/-! ## §3. Runs. -/

/-- What the log says of the URIs: of which it leaves something aside. -/
def ignoredLogs (uris : List Text) : List Text :=
  (uris.filter fun raw => (ofUrl raw).isOk && hasIgnoredParts raw).map fun raw =>
    "DEBUG lsp_wire.core.uri: Ignoring query/fragment of document URI " ++ Quoted.quote raw

theorem flatMap_ignoredPartsLog (uris : List Text) :
    uris.flatMap ignoredPartsLog = (ignoredLogs uris).map Line.log := by
  induction uris with
  | nil => rfl
  | cons raw uris ih =>
    rw [List.flatMap_cons, ih]
    unfold ignoredPartsLog ignoredLogs
    rw [List.filter_cons]
    split <;> rfl

theorem isTame_ignoredLogs (uris : List Text) : ∀ log ∈ ignoredLogs uris, IsTame log := by
  intro log hlog
  obtain ⟨raw, -, rfl⟩ := List.mem_map.1 hlog
  exact IsTame.append_quote (by decide +kernel) raw

theorem invalidUri_of_ofUrl {raw : Text} {failure : Failure} (hraw : ¬ NamesSurrogates raw)
    (h : ofUrl raw = .error failure) : ∃ fault, failure = .invalidUri fault := by
  rcases rejects_or_unencodable h with ⟨fault, rfl, -⟩ | ⟨fault, rfl⟩
  · exact ⟨fault, rfl⟩
  · exact absurd (ofUrl_unencodable_iff.1 ⟨fault, h⟩) hraw

/-- A batch of URIs is prepared for each that has octets. -/
theorem prepared_pathOfUrl {raw : Text} (hraw : ¬ NamesSurrogates raw) :
    Prepared [.invalidUri] pathOfUrl raw where
  family failure h := by
    obtain ⟨fault, rfl⟩ := invalidUri_of_ofUrl hraw (Result.map_eq_error_iff.1 h)
    rfl
  tame failure h := by
    have hurl := Result.map_eq_error_iff.1 h
    obtain ⟨fault, rfl⟩ := invalidUri_of_ofUrl hraw hurl
    exact isTame_of_ofUrl hurl
  scalar t h := by
    obtain ⟨d, -, rfl⟩ := Result.map_eq_ok_iff.1 h
    exact d.isScalar

/-- What becomes of a URI that has octets is kept. -/
theorem isOk_capture {uris : List Text} (h : ∀ raw ∈ uris, ¬ NamesSurrogates raw) :
    ∀ raw ∈ uris, (Outcome.capture [.invalidUri] (pathOfUrl raw)).isOk = true := by
  intro raw hraw
  rw [Outcome.capture_eq_ok (prepared_pathOfUrl (h raw hraw)).family]
  rfl

theorem print_toPathReport (color verbose : Bool) {uris : List Text}
    (h : ∀ raw ∈ uris, ¬ NamesSurrogates raw) :
    (toPathReport uris).print color verbose
      = ⟨exitCode (failures ofUrl uris),
          (converted ofUrl uris).flatMap fun d => ended (shown color d.path),
          logged verbose (ignoredLogs uris)
            ++ (failures ofUrl uris).flatMap fun failure => reportText color failure.message,
          none⟩ := by
  have hprint := print_batch_map color verbose path (isTame_ignoredLogs uris)
    fun raw hraw => prepared_pathOfUrl (h raw hraw)
  unfold toPathReport
  simp only [List.takeWhile_eq_self_iff.2 (isOk_capture h), flatMap_ignoredPartsLog]
  exact hprint

/-- A URI that names a document but for surrogates hides every other one. -/
theorem print_toPathReport_of_escape (color verbose : Bool) {before after : List Text} {raw : Text}
    {fault : Utf8.Unencodable} (hbefore : ∀ b ∈ before, ¬ NamesSurrogates b)
    (hraw : ofUrl raw = .error (.unencodable fault)) :
    (toPathReport (before ++ raw :: after)).print color verbose
      = ⟨1, [], logged verbose (ignoredLogs before), some (.unencodable fault)⟩ := by
  have hpath : pathOfUrl raw = .error (.unencodable fault) := Result.map_eq_error_iff.2 hraw
  have hescape : batch [.invalidUri] pathOfUrl (before ++ raw :: after)
      = ⟨[], .error (.unencodable fault)⟩ :=
    batch_of_escape (fun b hb => (prepared_pathOfUrl (hbefore b hb)).family) hpath rfl
  have hcaptured : (before ++ raw :: after).takeWhile
      (fun raw => (Outcome.capture [.invalidUri] (pathOfUrl raw)).isOk) = before := by
    rw [List.takeWhile_append_of_pos (isOk_capture hbefore), List.takeWhile_cons_of_neg,
      List.append_nil]
    rw [hpath, Outcome.capture_eq_error rfl]
    exact Bool.false_ne_true
  unfold toPathReport
  simp only [hescape, hcaptured, flatMap_ignoredPartsLog, List.append_nil]
  exact print_escape color verbose (isTame_ignoredLogs before) _

/-! ## §4. When every URI is reported. -/

/-- Every URI is reported: each accepted one by its path, each other one by what is wrong. -/
structure ReportsEach (color verbose : Bool) (uris : List Text) (result : Result) : Prop where
  exitCode : result.exitCode = if failures ofUrl uris = [] then 0 else 1
  output : result.output = (converted ofUrl uris).flatMap fun d => ended d.path
  errors : result.errors = logged verbose (ignoredLogs uris)
    ++ (failures ofUrl uris).flatMap fun failure => reportText color failure.message

theorem flatMap_plain_eq_iff (ts : List Text) :
    (ts.flatMap fun t => ended (plain t)) = ts.flatMap ended ↔ ∀ t ∈ ts, plain t = t := by
  have hlength : ∀ ts : List Text,
      (ts.flatMap fun t => ended (plain t)).length ≤ (ts.flatMap ended).length := by
    intro ts
    induction ts with
    | nil => exact Nat.le_refl 0
    | cons t ts ih =>
      have ht := (plain_sublist t).length_le
      simp only [List.flatMap_cons, List.length_append, length_ended]
      omega
  constructor
  · intro h
    induction ts with
    | nil => exact List.forall_mem_nil _
    | cons t ts ih =>
      -- nothing gets longer, so neither the first nor the others get shorter
      have hrest := hlength ts
      have ht := (plain_sublist t).length_le
      have hsum := congrArg List.length h
      simp only [List.flatMap_cons, List.length_append, length_ended] at hsum hrest
      have hplain : plain t = t := (plain_sublist t).eq_of_length (by omega)
      rw [List.flatMap_cons, List.flatMap_cons, hplain] at h
      exact List.forall_mem_cons.2 ⟨hplain, ih (List.append_cancel_left h)⟩
  · intro h
    exact List.flatMap_congr fun t ht => by rw [h t ht]

/-- Paths are shown as they are on a terminal, and elsewhere if no control sequence is in them. -/
theorem flatMap_shown_eq_iff (color : Bool) (ds : List DocumentUri) :
    (ds.flatMap fun d => ended (shown color d.path)) = (ds.flatMap fun d => ended d.path)
      ↔ color = true ∨ ∀ d ∈ ds, plain d.path = d.path := by
  cases color with
  | true => simp [shown]
  | false =>
    have hplain := flatMap_plain_eq_iff (ds.map path)
    rw [List.flatMap_map, List.flatMap_map, List.forall_mem_map] at hplain
    simpa [shown] using hplain

theorem reportText_ne_nil (color : Bool) (message : Text) : reportText color message ≠ [] :=
  List.append_ne_nil_of_right_ne_nil _ (List.cons_ne_nil _ _)

/-- What the log says of some URIs stands in front of what it says of more. -/
theorem logged_append (verbose : Bool) (uris others : List Text) :
    logged verbose (ignoredLogs (uris ++ others))
      = logged verbose (ignoredLogs uris) ++ logged verbose (ignoredLogs others) := by
  cases verbose with
  | true => simp [logged, ignoredLogs]
  | false => rfl

/-- The log alone is not a report of a failure. -/
theorem not_reportsEach_of_escape {color verbose : Bool} {before after : List Text} {raw : Text}
    {failure : Failure} {result : Result} (hraw : ofUrl raw = .error failure)
    (h : result.errors = logged verbose (ignoredLogs before)) :
    ¬ ReportsEach color verbose (before ++ raw :: after) result := by
  intro hreports
  have hmem : failure ∈ failures ofUrl (before ++ raw :: after) :=
    List.mem_filterMap.2 ⟨raw, by simp, by rw [hraw]; rfl⟩
  have herrors := hreports.errors
  rw [h, logged_append, List.append_assoc, List.self_eq_append_right, List.append_eq_nil_iff,
    List.flatMap_eq_nil_iff] at herrors
  exact reportText_ne_nil color _ (herrors.2 failure hmem)

/-- **The paths of URIs, as they are printed.**  Every URI is reported exactly if none names a
document but for surrogates and, where the output is no terminal, no path holds a control sequence.
Without the first condition nothing but the log is printed, without the second every URI is reported
still, but paths come out without their control sequences. -/
theorem run_toPath (color : Bool) (read : Text → Option Octets) {arguments : List Text}
    {verbose : Bool} {uris : List Text}
    (h : parse arguments = some ⟨verbose, .toPath uris⟩) :
    (ReportsEach color verbose uris (run color read arguments)
      ↔ (∀ raw ∈ uris, ¬ NamesSurrogates raw)
        ∧ (color = true ∨ ∀ d ∈ converted ofUrl uris, plain d.path = d.path))
    ∧ ((∀ raw ∈ uris, ¬ NamesSurrogates raw) →
        run color read arguments
          = ⟨if failures ofUrl uris = [] then 0 else 1,
              (converted ofUrl uris).flatMap fun d => ended (shown color d.path),
              logged verbose (ignoredLogs uris)
                ++ (failures ofUrl uris).flatMap fun failure => reportText color failure.message,
              none⟩)
    ∧ (∀ before raw after, uris = before ++ raw :: after →
        (∀ b ∈ before, ¬ NamesSurrogates b) → NamesSurrogates raw →
        ∃ fault, ofUrl raw = .error (.unencodable fault)
          ∧ run color read arguments
            = ⟨1, [], logged verbose (ignoredLogs before), some (.unencodable fault)⟩) := by
  have hrun : run color read arguments = (toPathReport uris).print color verbose := by
    unfold run
    simp only [h, Request.report]
  have hall := fun hnone : ∀ raw ∈ uris, ¬ NamesSurrogates raw =>
    hrun.trans (print_toPathReport color verbose hnone)
  have hescape : ∀ before raw after, uris = before ++ raw :: after →
      (∀ b ∈ before, ¬ NamesSurrogates b) → NamesSurrogates raw →
      ∃ fault, ofUrl raw = .error (.unencodable fault)
        ∧ run color read arguments
          = ⟨1, [], logged verbose (ignoredLogs before), some (.unencodable fault)⟩ := by
    rintro before raw after rfl hbefore hraw
    obtain ⟨fault, hfault⟩ := ofUrl_unencodable_iff.2 hraw
    exact ⟨fault, hfault, hrun.trans (print_toPathReport_of_escape color verbose hbefore hfault)⟩
  refine ⟨⟨fun hreports => ?_, ?_⟩, hall, hescape⟩
  · have hnone : ∀ raw ∈ uris, ¬ NamesSurrogates raw := by
      by_contra hsome
      obtain ⟨before, raw, after, rfl, hbefore, hraw⟩ :=
        Result.exists_first (p := fun raw => ¬ NamesSurrogates raw) (by simpa using hsome)
      obtain ⟨fault, hfault, hresult⟩ := hescape before raw after rfl hbefore (not_not.1 hraw)
      exact not_reportsEach_of_escape hfault (congrArg Result.errors hresult) hreports
    refine ⟨hnone, (flatMap_shown_eq_iff color _).1 ?_⟩
    rw [← hreports.output, hall hnone]
  · rintro ⟨hnone, hplain⟩
    rw [hall hnone]
    exact ⟨rfl, (flatMap_shown_eq_iff color _).2 hplain, rfl⟩


/-- A URI whose query is left aside, one of another scheme, and one with a drive. -/
def mixedUris : List Text := ["file:///ok?q", "http://x", "file:///c%3A/b"]

/-- A URI of a document, and one with a surrogate in its path. -/
def hiddenUris : List Text := ["file:///ok", Text.ofString "file:///a" ++ [0xDCFF]]

/-- A URI of a path with a control sequence. -/
def coloredUris : List Text := ["file:///a%1B%5B31mb"]

theorem not_namesSurrogates_mixed : ∀ raw ∈ mixedUris, ¬ NamesSurrogates raw := by
  have hany : mixedUris.all (fun raw => (Outcome.capture [.invalidUri] (ofUrl raw)).isOk)
      = true := by cbv
  intro raw hraw hnames
  obtain ⟨fault, hfault⟩ := ofUrl_unencodable_iff.2 hnames
  have hcaptured := List.all_eq_true.1 hany raw hraw
  rw [hfault, Outcome.capture_eq_error rfl] at hcaptured
  exact absurd hcaptured Bool.false_ne_true

/-- The rejected URI hides none of the others; the one with a surrogate hides the other. -/
theorem run_toPath_mixed :
    (parse (Text.ofString "-v" :: toPathArguments mixedUris) = some ⟨true, .toPath mixedUris⟩
      ∧ (∀ raw ∈ mixedUris, ¬ NamesSurrogates raw)
      ∧ ReportsEach false true mixedUris
        (run false (fun _ => none) (Text.ofString "-v" :: toPathArguments mixedUris))
      ∧ (converted ofUrl mixedUris).map path = [Text.ofString "/ok", Text.ofString "c:/b"]
      ∧ failures ofUrl mixedUris = [.invalidUri (.rejected "http://x" (.scheme "http"))])
    ∧ (parse (toPathArguments hiddenUris) = some ⟨false, .toPath hiddenUris⟩
      ∧ run false (fun _ => none) (toPathArguments hiddenUris)
        = ⟨1, [], [], some (.unencodable ⟨2, 1, 0xDCFF⟩)⟩) := by
  have hmixed : parse (Text.ofString "-v" :: toPathArguments mixedUris)
      = some ⟨true, .toPath mixedUris⟩ := by cbv
  have hpaths : (converted ofUrl mixedUris).map path
      = [Text.ofString "/ok", Text.ofString "c:/b"] := by cbv
  have hplain : ∀ d ∈ converted ofUrl mixedUris, plain d.path = d.path := by
    have htexts : ∀ t ∈ (converted ofUrl mixedUris).map path, plain t = t := by
      rw [hpaths]
      decide
    exact List.forall_mem_map.1 htexts
  have hfailures : failures ofUrl mixedUris
      = [.invalidUri (.rejected "http://x" (.scheme "http"))] := by cbv
  refine ⟨⟨hmixed, not_namesSurrogates_mixed, ?_, hpaths, hfailures⟩, ?_⟩
  · exact (run_toPath false (fun _ => none) hmixed).1.2 ⟨not_namesSurrogates_mixed, .inr hplain⟩
  · have hne : hiddenUris ≠ [] := by decide
    have hhidden := parse_toPath hne
    have hfault : ofUrl (Text.ofString "file:///a" ++ [0xDCFF])
        = .error (.unencodable ⟨2, 1, 0xDCFF⟩) := by cbv
    have hfirst : ∀ b ∈ [Text.ofString "file:///ok"], ¬ NamesSurrogates b := by
      rw [List.forall_mem_singleton, ← ofUrl_unencodable_iff]
      rintro ⟨fault, h⟩
      have hok : (ofUrl (Text.ofString "file:///ok")).isOk = true := by cbv
      rw [h] at hok
      exact absurd hok Bool.false_ne_true
    obtain ⟨fault, h, hrun⟩ := (run_toPath false (fun _ => none) hhidden).2.2
      [Text.ofString "file:///ok"] _ [] rfl hfirst (ofUrl_unencodable_iff.1 ⟨_, hfault⟩)
    rw [hfault] at h
    obtain rfl := Failure.unencodable.inj (Except.error.inj h)
    exact ⟨hhidden, hrun⟩

/-- A URI with a surrogate in its path hides that of a document, and the path of a URI comes out
without its control sequence. -/
theorem not_reportsEach_hidden :
    (run false (fun _ => none) (toPathArguments hiddenUris)
        = ⟨1, [], [], some (.unencodable ⟨2, 1, 0xDCFF⟩)⟩
      ∧ (converted ofUrl hiddenUris).map path = [Text.ofString "/ok"]
      ∧ ¬ ReportsEach false false hiddenUris
        (run false (fun _ => none) (toPathArguments hiddenUris)))
    ∧ (run false (fun _ => none) (toPathArguments coloredUris) = ⟨0, ended "/ab", [], none⟩
      ∧ (converted ofUrl coloredUris).map path
        = [Text.ofString "/a" ++ 0x1B :: Text.ofString "[31mb"]
      ∧ ¬ ReportsEach false false coloredUris
        (run false (fun _ => none) (toPathArguments coloredUris))) := by
  have hhidden : run false (fun _ => none) (toPathArguments hiddenUris)
      = ⟨1, [], [], some (.unencodable ⟨2, 1, 0xDCFF⟩)⟩ := by cbv
  have hok : (converted ofUrl hiddenUris).map path = [Text.ofString "/ok"] := by cbv
  have hcolored : run false (fun _ => none) (toPathArguments coloredUris)
      = ⟨0, ended "/ab", [], none⟩ := by cbv
  have hred : (converted ofUrl coloredUris).map path
      = [Text.ofString "/a" ++ 0x1B :: Text.ofString "[31mb"] := by cbv
  refine ⟨⟨hhidden, hok, fun h => ?_⟩, ⟨hcolored, hred, fun h => ?_⟩⟩
  · have houtput := h.output
    rw [hhidden, ← List.flatMap_map (f := path) (g := ended), hok] at houtput
    exact absurd houtput (by decide)
  · have houtput := h.output
    rw [hcolored, ← List.flatMap_map (f := path) (g := ended), hred] at houtput
    exact absurd houtput (by decide)

end CommandLine

end EditorWire
