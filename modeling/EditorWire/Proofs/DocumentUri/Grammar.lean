/-
  EditorWire.Proofs.DocumentUri.Grammar — the URIs of local documents, by rules.

      uri      =  "file" ":" ( "//" authority tail  /  tail )
      tail     =  path behind

  The scheme and the authority `localhost` are of any case, an authority ends in
  front of the first `/`, `?` or `#`, a path in front of the first `?` or `#`;
  without the two slashes all of it is the tail.  No blank and no control
  character stands anywhere, and the path is not empty and spells a text: its
  escapes are whole, and the octets it stands for are the UTF-8 form of the text.

  Main result:
    * `ofUrl_iff_names` — `ofUrl` accepts the URIs of the grammar and no others, and
      gives the normal form of the text that is spelled.
-/
import EditorWire.DocumentUri.Basic
import EditorWire.Proofs.DocumentUri.Percent
import EditorWire.Proofs.Text.Cut

namespace EditorWire

namespace DocumentUri

/-! ## §1. The grammar. -/

/-- What ends a path. -/
def endsPath (c : Nat) : Bool := c == Ascii.hash || c == Ascii.question

/-- The tail behind the colon of the scheme. -/
inductive LocalTail : Text → Text → Prop where
  /-- Behind two slashes and an authority that is the machine at hand. -/
  | authority {rest name tail : Text} :
      Text.Cut Reference.endsAuthority rest name tail →
      name = [] ∨ Text.toLower name = "localhost" →
      LocalTail (Ascii.slash :: Ascii.slash :: rest) tail
  /-- Without two slashes, everything. -/
  | bare {tail : Text} :
      (¬ ∃ rest, tail = Ascii.slash :: Ascii.slash :: rest) → LocalTail tail tail

/-- The text that a written path spells. -/
structure SpellsPath (path t : Text) : Prop where
  /-- There is a path. -/
  ne_nil : path ≠ []
  /-- It holds no surrogate. -/
  isScalar : Text.IsScalar path
  /-- Every percent sign is followed by two hexadecimal digits. -/
  whole : Percent.EscapesAreWhole path
  /-- The octets it stands for are the UTF-8 form of the text. -/
  utf8 : ∃ octets, Percent.StandsFor path octets ∧ Text.IsScalar t ∧ Utf8.encode t = octets

/-- `raw` is the URI of a local document, and `t` the text its path spells. -/
inductive Names : Text → Text → Prop where
  | mk {scheme rest tail path behind t : Text} :
      (∀ c ∈ scheme ++ Ascii.colon :: rest, 0x20 < c ∧ c ≠ 0x7F) →
      Text.toLower scheme = "file" →
      LocalTail rest tail →
      Text.Cut endsPath tail path behind →
      SpellsPath path t →
      Names (scheme ++ Ascii.colon :: rest) t

/-! ## §2. The scheme. -/

/-- A letter in lower case was one before. -/
theorem isLetter_of_isLower_toLower {c : Nat}
    (h : CodePoint.isLower (CodePoint.toLower c) = true) : CodePoint.isLetter c = true := by
  simp only [CodePoint.isLower, CodePoint.toLower, CodePoint.isUpper, CodePoint.isLetter,
    Bool.or_eq_true, Bool.and_eq_true, decide_eq_true_eq] at h ⊢
  split at h <;> omega

/-- A text that is a word of lower-case letters in some case has letters only. -/
theorem isLetter_of_toLower_eq {t word : Text} (h : Text.toLower t = word)
    (hword : ∀ c ∈ word, CodePoint.isLower c = true) :
    ∀ c ∈ t, CodePoint.isLetter c = true := by
  intro c hc
  refine isLetter_of_isLower_toLower (hword _ ?_)
  rw [← h]
  exact List.mem_map_of_mem hc

/-- The scheme holds no colon. -/
theorem colon_not_mem_of_toLower_eq {s : Text} (h : Text.toLower s = fileScheme) :
    Ascii.colon ∉ s :=
  fun hmem => absurd (isLetter_of_toLower_eq h (by decide) _ hmem) (by decide)

/-- The splitter finds the scheme `file` exactly in front of the colon behind it. -/
theorem splitScheme_eq_file_iff {t rest : Text} :
    Reference.splitScheme t = (fileScheme, rest)
      ↔ ∃ s, t = s ++ Ascii.colon :: rest ∧ Text.toLower s = fileScheme := by
  constructor
  · intro h
    have hne : ([] : Text) ≠ fileScheme := by decide
    unfold Reference.splitScheme at h
    split at h
    · next c s after heq =>
      split at h
      · simp only [Prod.mk.injEq] at h
        obtain ⟨hs, rfl⟩ := h
        exact ⟨c :: s, Text.eq_append_of_cutAround heq, hs⟩
      · exact absurd (congrArg Prod.fst h) hne
    · exact absurd (congrArg Prod.fst h) hne
  · rintro ⟨s, rfl, hs⟩
    have hletter : ∀ c ∈ s, CodePoint.isLetter c = true :=
      isLetter_of_toLower_eq hs (by decide)
    unfold Reference.splitScheme
    rw [Text.cutAround_append (colon_not_mem_of_toLower_eq hs)]
    cases s with
    | nil => exact absurd hs (by decide)
    | cons c s =>
      have hall : s.all Reference.isSchemeCharacter = true := by
        refine List.all_eq_true.2 fun x hx => ?_
        simp [Reference.isSchemeCharacter, hletter x (List.mem_cons_of_mem c hx)]
      simp [hletter c List.mem_cons_self, hall, hs]

/-! ## §3. The authority. -/

/-- The splitter finds a local authority exactly where the grammar has one. -/
theorem localTail_iff {rest tail : Text} :
    LocalTail rest tail
      ↔ (Reference.splitAuthority rest).2 = tail
        ∧ Authority.isLocal (Reference.splitAuthority rest).1 = true := by
  have hlocal : ∀ name : Text, Authority.isLocal name = true
      ↔ name = [] ∨ Text.toLower name = "localhost" := by
    intro name
    simp [Authority.isLocal]
  constructor
  · rintro (⟨hcut, hname⟩ | hbare)
    · show (Text.cutAt _ _).2 = _ ∧ Authority.isLocal (Text.cutAt _ _).1 = true
      rw [Text.cutAt_eq_iff.2 hcut]
      exact ⟨rfl, (hlocal _).2 hname⟩
    · unfold Reference.splitAuthority
      split
      · exact absurd ⟨_, rfl⟩ hbare
      · exact ⟨rfl, rfl⟩
  · rintro ⟨rfl, hname⟩
    unfold Reference.splitAuthority at hname ⊢
    split at hname
    · exact .authority (Text.cut_cutAt _ _) ((hlocal _).1 hname)
    · next hbare => exact .bare fun ⟨rest, heq⟩ => hbare rest heq

/-- An authority of letters passes every check on brackets and disguised delimiters. -/
theorem isWellFormed_of_isLetter {name : Text} (h : ∀ c ∈ name, CodePoint.isLetter c = true) :
    Authority.isWellFormed name = true := by
  have hnone : ∀ x, CodePoint.isLetter x = false → x ∉ name := by
    intro x hx hmem
    exact absurd (h x hmem) (by simp [hx])
  have hopen : name.contains Ascii.openBracket = false := by
    simpa using hnone Ascii.openBracket (by decide)
  have hclose : name.contains Ascii.closeBracket = false := by
    simpa using hnone Ascii.closeBracket (by decide)
  have hdisguised : name.any Authority.disguisedDelimiters.contains = false := by
    refine List.any_eq_false.2 fun c hc hmem => ?_
    have hall : ∀ x ∈ Authority.disguisedDelimiters, CodePoint.isLetter x = false := by decide
    exact hnone c (hall c (List.contains_iff_mem.1 hmem)) hc
  simp only [Authority.isWellFormed, hopen, hclose, hdisguised]
  rfl

theorem isWellFormed_of_isLocal {name : Text} (h : Authority.isLocal name = true) :
    Authority.isWellFormed name = true := by
  simp only [Authority.isLocal, Bool.or_eq_true, List.isEmpty_iff, beq_iff_eq] at h
  rcases h with rfl | h
  · decide
  · exact isWellFormed_of_isLetter (isLetter_of_toLower_eq h (by decide))

/-! ## §4. All parts together. -/

/-- What the splitter calls the path is the cut in front of query and fragment. -/
theorem path_eq_of_cut {tail path behind : Text} (h : Text.Cut endsPath tail path behind) :
    (Text.cutAround Ascii.question (Text.cutAround Ascii.hash tail).1).1 = path :=
  Text.Cut.cutAround_cutAround h

/-- The splitter finds the scheme `file`, a local authority and a path exactly where the grammar
has them. -/
theorem exists_local_parts_iff {raw path : Text} :
    (∃ parts, Reference.split? raw = some parts ∧ parts.scheme = fileScheme
        ∧ Authority.isLocal parts.authority = true ∧ parts.path = path)
      ↔ ∃ scheme rest tail behind, raw = scheme ++ Ascii.colon :: rest
          ∧ Text.toLower scheme = fileScheme ∧ LocalTail rest tail
          ∧ Text.Cut endsPath tail path behind := by
  constructor
  · rintro ⟨parts, hsplit, hscheme, hlocal, rfl⟩
    obtain ⟨scheme, rest, hsplitScheme⟩ : ∃ scheme rest,
        Reference.splitScheme raw = (scheme, rest) := ⟨_, _, rfl⟩
    obtain ⟨name, tail, hsplitAuthority⟩ : ∃ name tail,
        Reference.splitAuthority rest = (name, tail) := ⟨_, _, rfl⟩
    simp only [Reference.split?, hsplitScheme, hsplitAuthority] at hsplit
    -- the splitter gives up only on an authority that is not well-formed
    split at hsplit
    · injection hsplit with hsplit
      subst hsplit
      obtain rfl : scheme = fileScheme := hscheme
      obtain ⟨s, hraw, hs⟩ := splitScheme_eq_file_iff.1 hsplitScheme
      have htail : LocalTail rest tail := by
        refine localTail_iff.2 ?_
        rw [hsplitAuthority]
        exact ⟨rfl, hlocal⟩
      have hcut := Text.cut_cutAt endsPath tail
      rw [← path_eq_of_cut hcut] at hcut
      exact ⟨s, rest, tail, _, hraw, hs, htail, hcut⟩
    · cases hsplit
  · rintro ⟨s, rest, tail, behind, hraw, hs, htail, hcut⟩
    have hfile := splitScheme_eq_file_iff.2 ⟨s, hraw, hs⟩
    obtain ⟨rfl, hlocal⟩ := localTail_iff.1 htail
    unfold Reference.split?
    -- a local authority has letters only, so it is well-formed
    simp only [hfile, isWellFormed_of_isLocal hlocal, if_true]
    exact ⟨_, rfl, rfl, hlocal, path_eq_of_cut hcut⟩

/-- The document of a path is the one of its normal form. -/
theorem ofPath_eq_ok_iff {t : Text} {d : DocumentUri} (hne : t ≠ []) (ht : Text.IsScalar t) :
    ofPath t = .ok d ↔ d.path = Path.normalize t := by
  unfold ofPath
  rw [if_neg hne, dif_pos ht]
  constructor
  · intro h
    cases h
    rfl
  · intro h
    cases d
    cases h
    rfl

/-- A path that spells a text gives the document of the text's normal form, and no other path
gives a document. -/
theorem ofWrittenPath_eq_ok_iff {raw path : Text} {d : DocumentUri} :
    ofWrittenPath raw path = .ok d ↔ ∃ t, SpellsPath path t ∧ d.path = Path.normalize t := by
  constructor
  · intro h
    unfold ofWrittenPath at h
    -- every check that fails ends in a fault, so each was passed
    split at h
    · cases h
    next hne =>
    split at h
    · cases h
    next octets hoctets =>
    split at h
    · cases h
    next hsurrogates =>
    split at h
    · cases h
    next t ht' =>
    have hstands := Percent.decode?_eq_some_iff.1 hoctets
    have hutf8 := Utf8.decode?_eq_some_iff.1 ht'
    have ht : t ≠ [] := by
      rintro rfl
      exact hstands.ne_nil hne hutf8.2.symm
    exact ⟨t, ⟨hne, Utf8.firstSurrogates?_eq_none_iff.1 hsurrogates,
      Percent.exists_standsFor_iff.1 ⟨octets, hstands⟩, octets, hstands, hutf8⟩,
      (ofPath_eq_ok_iff ht hutf8.1).1 h⟩
  · rintro ⟨t, ⟨hne, hscalar, -, octets, hstands, hutf8⟩, hd⟩
    have ht : t ≠ [] := by
      rintro rfl
      exact hstands.ne_nil hne hutf8.2.symm
    unfold ofWrittenPath
    simp only [if_neg hne, Percent.decode?_eq_some_iff.2 hstands,
      Utf8.firstSurrogates?_eq_none_iff.2 hscalar, Utf8.decode?_eq_some_iff.2 hutf8]
    exact (ofPath_eq_ok_iff ht hutf8.1).2 hd

/-- `ofUrl` is the checks one after another. -/
theorem ofUrl_eq_ok_iff_parts {raw : Text} {d : DocumentUri} :
    ofUrl raw = .ok d
      ↔ (∀ c ∈ raw, 0x20 < c ∧ c ≠ 0x7F)
        ∧ ∃ parts, Reference.split? raw = some parts ∧ parts.scheme = fileScheme
          ∧ Authority.isLocal parts.authority = true ∧ ofWrittenPath raw parts.path = .ok d := by
  have hsafe : (∀ c ∈ raw, 0x20 < c ∧ c ≠ 0x7F) ↔ raw.any isUnsafe = false := by
    simp [isUnsafe]
  rw [hsafe]
  unfold ofUrl
  constructor
  · intro h
    -- unsafe characters, the splitter, the scheme, the authority
    split at h
    · cases h
    next hany =>
    split at h
    · cases h
    next parts hparts =>
    split at h
    · cases h
    next hscheme =>
    split at h
    · cases h
    next hlocal =>
    rw [Bool.not_eq_true] at hany
    rw [ne_eq, not_not] at hscheme
    rw [Bool.not_eq_true, Bool.not_eq_false'] at hlocal
    exact ⟨hany, parts, hparts, hscheme, hlocal, h⟩
  · rintro ⟨hany, parts, hparts, hscheme, hlocal, h⟩
    rw [hany, if_neg Bool.false_ne_true, hparts]
    simp only [ne_eq, hscheme, not_true_eq_false, if_false, hlocal, Bool.not_true,
      Bool.false_eq_true]
    exact h

/-- `ofUrl` gives the document of a text exactly from a URI that names the text. -/
theorem ofUrl_eq_ok_iff {raw : Text} {d : DocumentUri} :
    ofUrl raw = .ok d ↔ ∃ t, Names raw t ∧ d.path = Path.normalize t := by
  rw [ofUrl_eq_ok_iff_parts]
  constructor
  · rintro ⟨hsafe, parts, hsplit, hscheme, hlocal, hpath⟩
    obtain ⟨s, rest, tail, behind, rfl, hs, htail, hcut⟩ :=
      exists_local_parts_iff.1 ⟨parts, hsplit, hscheme, hlocal, rfl⟩
    obtain ⟨t, hspells, hd⟩ := ofWrittenPath_eq_ok_iff.1 hpath
    exact ⟨t, .mk hsafe hs htail hcut hspells, hd⟩
  · rintro ⟨t, ⟨hsafe, hs, htail, hcut, hspells⟩, hd⟩
    obtain ⟨parts, hsplit, hscheme, hlocal, rfl⟩ :=
      exists_local_parts_iff.2 ⟨_, _, _, _, rfl, hs, htail, hcut⟩
    exact ⟨hsafe, parts, hsplit, hscheme, hlocal,
      ofWrittenPath_eq_ok_iff.2 ⟨t, hspells, hd⟩⟩

/-- The text a URI names has octets. -/
theorem Names.isScalar {raw t : Text} (h : Names raw t) : Text.IsScalar t := by
  obtain ⟨-, -, -, -, hspells⟩ := h
  obtain ⟨-, -, ht, -⟩ := hspells.utf8
  exact ht

/-- **The URIs of local documents are those of the grammar**: `ofUrl` gives a document exactly
from them, the one of the normal form of the text that is spelled, and fails on every other. -/
theorem ofUrl_iff_names (raw : Text) :
    (∀ d, ofUrl raw = .ok d ↔ ∃ t, Names raw t ∧ d.path = Path.normalize t)
      ∧ ((∃ failure, ofUrl raw = .error failure) ↔ ¬ ∃ t, Names raw t) := by
  refine ⟨fun d => ofUrl_eq_ok_iff, ?_⟩
  rw [Result.exists_error_iff, not_iff_not]
  constructor
  · rintro ⟨d, h⟩
    obtain ⟨t, hnames, -⟩ := ofUrl_eq_ok_iff.1 h
    exact ⟨t, hnames⟩
  · rintro ⟨t, hnames⟩
    exact ⟨ofScalars t hnames.isScalar, ofUrl_eq_ok_iff.2 ⟨t, hnames, rfl⟩⟩

end DocumentUri

end EditorWire
