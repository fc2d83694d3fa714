/-
  EditorWire.Proofs.DocumentUri.Respelling — escaping more of a path.

  A path can be written in many ways.  `Respelled` holds when every code point that
  is part of no escape is either kept or written as the escapes of its UTF-8 octets,
  with digits of either case, and every escape is kept:

      /C:/é%20b   and   /%43%3a/%C3%a9%20b

  A URI is respelled in its path.  The slash that ends an authority stays: without
  it the authority would go on.

      scheme ":" "//" authority "/" path behind
      scheme ":" path behind

  Main results:
    * `decode?_of_respelled` — the octets of a path are those it had before.
    * `names_of_respelled` — a URI that is respelled names the text it named.
    * `ofUrl_respelled` — it is the same document, also as the key of a mapping.
-/
import EditorWire.Proofs.DocumentUri.Inbound

namespace EditorWire

namespace Percent

/-! ## §1. Paths. -/

/-- The octets, each of them written as an escape with digits of either case. -/
inductive Escapes : Octets → Text → Prop where
  | nil : Escapes [] []
  | cons {octet a b : Nat} {octets : Octets} {t : Text} :
      CodePoint.hexValue? a = some (octet / 16) → CodePoint.hexValue? b = some (octet % 16) →
      Escapes octets t → Escapes (octet :: octets) (Ascii.percent :: a :: b :: t)

/-- A path, and the same path with some code points escaped. -/
inductive Respelled : Text → Text → Prop where
  | nil : Respelled [] []
  /-- What is escaped stays as it is. -/
  | escape {a b : Nat} {r r' : Text} :
      CodePoint.isHexDigit a = true → CodePoint.isHexDigit b = true → Respelled r r' →
      Respelled (Ascii.percent :: a :: b :: r) (Ascii.percent :: a :: b :: r')
  /-- Any other code point is kept, … -/
  | keep {c : Nat} {r r' : Text} :
      c ≠ Ascii.percent → Respelled r r' → Respelled (c :: r) (c :: r')
  /-- … or its octets are escaped. -/
  | replace {c : Nat} {e r r' : Text} :
      c ≠ Ascii.percent → Escapes (Utf8.encodePoint c) e → Respelled r r' →
      Respelled (c :: r) (e ++ r')

/-- Escapes stand for the octets that are escaped. -/
theorem decode?_escapes_append {octets : Octets} {e : Text} (h : Escapes octets e) (r : Text) :
    decode? (e ++ r) = (decode? r).map (octets ++ ·) := by
  induction h with
  | nil => simp
  | @cons octet a b octets t ha hb _ ih =>
    show decode? (Ascii.percent :: a :: b :: (t ++ r)) = _
    rw [decode?_escape ha hb, ih, Option.map_map, Nat.div_add_mod']
    rfl

/-- **The octets of a path are those it had before.** -/
theorem decode?_of_respelled {p p' : Text} (h : Respelled p p') : decode? p' = decode? p := by
  induction h with
  | nil => rfl
  | escape ha hb _ ih =>
    obtain ⟨high, hhigh⟩ := Option.isSome_iff_exists.1 ha
    obtain ⟨low, hlow⟩ := Option.isSome_iff_exists.1 hb
    rw [decode?_escape hhigh hlow, decode?_escape hhigh hlow, ih]
  | keep hc _ ih => rw [decode?_cons_of_ne hc, decode?_cons_of_ne hc, ih]
  | replace hc he _ ih => rw [decode?_escapes_append he, decode?_cons_of_ne hc, ih]

/-- The code points escapes consist of. -/
def isEscapeCharacter (c : Nat) : Bool := c == Ascii.percent || CodePoint.isHexDigit c

theorem isEscapeCharacter_of_escapes {octets : Octets} {e : Text} (h : Escapes octets e) :
    ∀ c ∈ e, isEscapeCharacter c = true := by
  induction h with
  | nil => exact List.forall_mem_nil _
  | cons ha hb _ ih =>
    have ha' := CodePoint.isHexDigit_of_hexValue? ha
    have hb' := CodePoint.isHexDigit_of_hexValue? hb
    simp only [List.forall_mem_cons]
    exact ⟨rfl, by simp [isEscapeCharacter, ha'], by simp [isEscapeCharacter, hb'], ih⟩

/-- Nothing but escapes comes in: a class of code points with those of escapes in it that held
all of the path holds all of it again. -/
theorem forall_of_respelled {P : Nat → Prop} (hP : ∀ c, isEscapeCharacter c = true → P c)
    {p p' : Text} (h : Respelled p p') (hp : ∀ c ∈ p, P c) : ∀ c ∈ p', P c := by
  induction h with
  | nil => exact hp
  | escape _ _ _ ih =>
    simp only [List.forall_mem_cons] at hp ⊢
    exact ⟨hp.1, hp.2.1, hp.2.2.1, ih hp.2.2.2⟩
  | keep _ _ ih =>
    simp only [List.forall_mem_cons] at hp ⊢
    exact ⟨hp.1, ih hp.2⟩
  | replace _ he _ ih =>
    rw [List.forall_mem_cons] at hp
    rw [List.forall_mem_append]
    exact ⟨fun c hc => hP c (isEscapeCharacter_of_escapes he c hc), ih hp.2⟩

/-- A code point of an escape is visible, and ends neither a path nor an authority. -/
theorem range_of_isEscapeCharacter {c : Nat} (h : isEscapeCharacter c = true) :
    0x20 < c ∧ c < 0x7F ∧ c ≠ Ascii.slash ∧ c ≠ Ascii.hash ∧ c ≠ Ascii.question := by
  rw [isEscapeCharacter, Bool.or_eq_true, beq_iff_eq, CodePoint.isHexDigit_iff] at h
  show _ ∧ _ ∧ c ≠ 0x2F ∧ c ≠ 0x23 ∧ c ≠ 0x3F
  rcases h with hpercent | hdigit
  · subst hpercent
    decide
  · omega

/-- A slash in front was there before. -/
theorem exists_of_respelled_slash {p p' r' : Text} (h : Respelled p p')
    (hp' : p' = Ascii.slash :: r') : ∃ r, p = Ascii.slash :: r ∧ Respelled r r' := by
  cases h with
  | nil => cases hp'
  | escape => exact absurd (List.cons.inj hp').1 (by decide)
  | keep hc hr =>
    obtain ⟨rfl, rfl⟩ := List.cons.inj hp'
    exact ⟨_, rfl, hr⟩
  | @replace c e r r'' hc he hr =>
    -- a code point that is replaced leaves a percent sign in front
    generalize hoctets : Utf8.encodePoint c = octets at he
    cases he with
    | nil => exact absurd hoctets (Utf8.encodePoint_ne_nil c)
    | cons => exact absurd (List.cons.inj hp').1 (by decide)

/-- Every path without a broken escape is a respelling of itself. -/
theorem respelled_self {p : Text} (h : EscapesAreWhole p) : Respelled p p := by
  obtain ⟨octets, hstands⟩ := exists_standsFor_iff.2 h
  induction hstands with
  | nil => exact .nil
  | escape ha hb _ ih =>
    exact .escape (CodePoint.isHexDigit_of_hexValue? ha) (CodePoint.isHexDigit_of_hexValue? hb)
      (ih h.tail.tail.tail)
  | plain hc _ ih => exact .keep hc (ih h.tail)

end Percent

namespace DocumentUri

open Percent (isEscapeCharacter range_of_isEscapeCharacter forall_of_respelled)

/-! ## §2. URIs. -/

/-- A URI, and the same URI with its path respelled. -/
inductive Respelled : Text → Text → Prop where
  /-- Behind an authority and the slash that ends it. -/
  | authority {scheme name tail path path' behind : Text} :
      Ascii.colon ∉ scheme → (∀ c ∈ name, Reference.endsAuthority c = false) →
      Text.Cut endsPath tail path behind → Percent.Respelled path path' →
      Respelled
        (scheme ++ Ascii.colon :: Ascii.slash :: Ascii.slash :: (name ++ Ascii.slash :: tail))
        (scheme ++ Ascii.colon :: Ascii.slash :: Ascii.slash ::
          (name ++ Ascii.slash :: (path' ++ behind)))
  /-- Without an authority, from the colon on. -/
  | bare {scheme tail path path' behind : Text} :
      Ascii.colon ∉ scheme → (¬ ∃ rest, tail = Ascii.slash :: Ascii.slash :: rest) →
      Text.Cut endsPath tail path behind → Percent.Respelled path path' →
      Respelled (scheme ++ Ascii.colon :: tail) (scheme ++ Ascii.colon :: (path' ++ behind))

variable {path path' behind : Text}

/-- The path that is respelled ends where the path ended. -/
theorem cut_of_respelled {tail : Text} (hcut : Text.Cut endsPath tail path behind)
    (h : Percent.Respelled path path') : Text.Cut endsPath (path' ++ behind) path' behind := by
  refine ⟨rfl, forall_of_respelled ?_ h hcut.free, hcut.stops⟩
  intro c hc
  obtain ⟨-, -, -, hhash, hquestion⟩ := range_of_isEscapeCharacter hc
  simp [endsPath, hhash, hquestion]

/-- It spells what it spelled. -/
theorem spellsPath_of_respelled {t : Text} (h : Percent.Respelled path path')
    (hspells : SpellsPath path t) : SpellsPath path' t := by
  obtain ⟨hne, hscalar, -, octets, hstands, ht⟩ := hspells
  have hstands' : Percent.StandsFor path' octets := by
    rw [← Percent.decode?_eq_some_iff, Percent.decode?_of_respelled h]
    exact Percent.decode?_eq_some_iff.2 hstands
  refine ⟨?_, forall_of_respelled ?_ h hscalar, Percent.exists_standsFor_iff.1 ⟨_, hstands'⟩,
    octets, hstands', ht⟩
  · -- a path stands for something exactly if it is not empty
    intro hnil
    subst hnil
    cases hstands'
    exact hstands.ne_nil hne rfl
  · intro c hc
    have hrange := range_of_isEscapeCharacter hc
    exact .inl (by omega)

/-- No two slashes come in at the start. -/
theorem not_slashes_of_respelled {tail : Text} (hcut : Text.Cut endsPath tail path behind)
    (h : Percent.Respelled path path')
    (hbare : ¬ ∃ rest, tail = Ascii.slash :: Ascii.slash :: rest) :
    ¬ ∃ rest, path' ++ behind = Ascii.slash :: Ascii.slash :: rest := by
  have hbehind : ∀ rest, behind ≠ Ascii.slash :: rest :=
    fun rest hrest => absurd (hcut.stops _ rest hrest) (by decide)
  intro hslashes
  obtain ⟨rest, hrest⟩ := hslashes
  -- both slashes are of the path, since what is behind it starts with none
  cases path' with
  | nil => exact hbehind _ hrest
  | cons c r =>
    obtain ⟨rfl, hr⟩ := List.cons.inj hrest
    cases r with
    | nil => exact hbehind _ hr
    | cons c' r' =>
      obtain ⟨rfl, -⟩ := List.cons.inj hr
      obtain ⟨s, rfl, hs⟩ := Percent.exists_of_respelled_slash h rfl
      obtain ⟨s', rfl, -⟩ := Percent.exists_of_respelled_slash hs rfl
      exact hbare ⟨s' ++ behind, hcut.whole⟩

/-! ## §3. What is named. -/

/-- The parts of a URI whose scheme ends at the first colon. -/
theorem names_iff {scheme rest t : Text} (hscheme : Ascii.colon ∉ scheme) :
    Names (scheme ++ Ascii.colon :: rest) t
      ↔ (∀ c ∈ scheme ++ Ascii.colon :: rest, 0x20 < c ∧ c ≠ 0x7F)
        ∧ Text.toLower scheme = "file"
        ∧ ∃ tail path behind, LocalTail rest tail ∧ Text.Cut endsPath tail path behind
          ∧ SpellsPath path t := by
  constructor
  · intro h
    generalize hraw : scheme ++ Ascii.colon :: rest = raw at h
    obtain ⟨hsafe, hfile, htail, hcut, hspells⟩ := h
    -- both schemes end at the first colon
    have heq := Text.cutAround_append hscheme rest
    rw [hraw, Text.cutAround_append (colon_not_mem_of_toLower_eq hfile), Prod.mk.injEq,
      Option.some.injEq] at heq
    obtain ⟨rfl, rfl⟩ := heq
    exact ⟨hsafe, hfile, _, _, _, htail, hcut, hspells⟩
  · intro h
    obtain ⟨hsafe, hfile, _, _, _, htail, hcut, hspells⟩ := h
    exact .mk hsafe hfile htail hcut hspells

/-- Behind two slashes the tail starts with the slash that ends the authority. -/
theorem localTail_authority_iff {name tail tail' : Text}
    (hname : ∀ c ∈ name, Reference.endsAuthority c = false) :
    LocalTail (Ascii.slash :: Ascii.slash :: (name ++ Ascii.slash :: tail)) tail'
      ↔ tail' = Ascii.slash :: tail ∧ (name = [] ∨ Text.toLower name = "localhost") := by
  have hcut : Text.Cut Reference.endsAuthority (name ++ Ascii.slash :: tail) name
      (Ascii.slash :: tail) := by
    refine ⟨rfl, hname, ?_⟩
    intro c r hr
    obtain ⟨rfl, -⟩ := List.cons.inj hr
    rfl
  constructor
  · intro h
    cases h with
    | authority hcut' hlocal =>
      obtain ⟨rfl, rfl⟩ := hcut.eq_of_cut hcut'
      exact ⟨rfl, hlocal⟩
    | bare hbare => exact absurd ⟨_, rfl⟩ hbare
  · intro h
    obtain ⟨rfl, hlocal⟩ := h
    exact .authority hcut hlocal

/-- Without two slashes everything is the tail. -/
theorem localTail_bare_iff {rest tail : Text}
    (hbare : ¬ ∃ r, rest = Ascii.slash :: Ascii.slash :: r) : LocalTail rest tail ↔ tail = rest := by
  constructor
  · intro h
    cases h with
    | authority => exact absurd ⟨_, rfl⟩ hbare
    | bare => rfl
  · intro h
    subst h
    exact .bare hbare

/-- The slash in front of a path is of the path. -/
theorem cut_slash {tail : Text} (hcut : Text.Cut endsPath tail path behind) :
    Text.Cut endsPath (Ascii.slash :: tail) (Ascii.slash :: path) behind := by
  refine ⟨by rw [hcut.whole]; rfl, ?_, hcut.stops⟩
  rw [List.forall_mem_cons]
  exact ⟨rfl, hcut.free⟩

/-- **A URI that is respelled names the text it named.** -/
theorem names_of_respelled {raw raw' t : Text} (h : Respelled raw raw') (hnames : Names raw t) :
    Names raw' t := by
  have hvisible : ∀ c, isEscapeCharacter c = true → 0x20 < c ∧ c ≠ 0x7F := by
    intro c hc
    have hrange := range_of_isEscapeCharacter hc
    omega
  cases h with
  | @authority scheme name tail path path' behind hscheme hname hcut hpath =>
    obtain ⟨hsafe, hfile, _, path₀, behind₀, htail, hcut₀, hspells⟩ := (names_iff hscheme).1 hnames
    obtain ⟨rfl, hlocal⟩ := (localTail_authority_iff hname).1 htail
    obtain ⟨rfl, rfl⟩ := (cut_slash hcut).eq_of_cut hcut₀
    have hkeep : Percent.Respelled (Ascii.slash :: path) (Ascii.slash :: path') :=
      .keep (by decide) hpath
    refine (names_iff hscheme).2 ⟨?_, hfile, _, _, _,
      (localTail_authority_iff hname).2 ⟨rfl, hlocal⟩, cut_slash (cut_of_respelled hcut hpath),
      spellsPath_of_respelled hkeep hspells⟩
    rw [hcut.whole] at hsafe
    simp only [List.forall_mem_append, List.forall_mem_cons] at hsafe ⊢
    obtain ⟨hs, hcolon, hslash, hslash', hn, hslash'', hp, hb⟩ := hsafe
    exact ⟨hs, hcolon, hslash, hslash', hn, hslash'', forall_of_respelled hvisible hpath hp, hb⟩
  | @bare scheme tail path path' behind hscheme hbare hcut hpath =>
    obtain ⟨hsafe, hfile, _, path₀, behind₀, htail, hcut₀, hspells⟩ := (names_iff hscheme).1 hnames
    obtain rfl := (localTail_bare_iff hbare).1 htail
    obtain ⟨rfl, rfl⟩ := hcut.eq_of_cut hcut₀
    refine (names_iff hscheme).2 ⟨?_, hfile, _, _, _,
      (localTail_bare_iff (not_slashes_of_respelled hcut hpath hbare)).2 rfl,
      cut_of_respelled hcut hpath, spellsPath_of_respelled hpath hspells⟩
    rw [hcut.whole] at hsafe
    simp only [List.forall_mem_append, List.forall_mem_cons] at hsafe ⊢
    obtain ⟨hs, hcolon, hp, hb⟩ := hsafe
    exact ⟨hs, hcolon, forall_of_respelled hvisible hpath hp, hb⟩

/-- Behind an authority the path starts with a slash. -/
theorem exists_slash_of_cut {rest name tail : Text}
    (hname : Text.Cut Reference.endsAuthority rest name tail)
    (hcut : Text.Cut endsPath tail path behind) (hne : path ≠ []) :
    ∃ p, path = Ascii.slash :: p := by
  cases path with
  | nil => exact absurd rfl hne
  | cons c p =>
    -- a slash is all that ends an authority and no path
    have hends := hname.stops c (p ++ behind) hcut.whole
    have hfree := hcut.free c List.mem_cons_self
    simp only [Reference.endsAuthority, Bool.or_eq_true, beq_iff_eq] at hends
    simp only [endsPath, Bool.or_eq_false_iff, beq_eq_false_iff_ne] at hfree
    rcases hends with (rfl | hquestion) | hhash
    · exact ⟨p, rfl⟩
    · exact absurd hquestion hfree.2
    · exact absurd hhash hfree.1

/-- Every URI of a local document is of one of the two forms. -/
theorem respelled_self {raw t : Text} (h : Names raw t) : Respelled raw raw := by
  obtain ⟨-, hfile, htail, hcut, hspells⟩ := h
  have hscheme := colon_not_mem_of_toLower_eq hfile
  cases htail with
  | authority hname _ =>
    obtain ⟨p, rfl⟩ := exists_slash_of_cut hname hcut hspells.ne_nil
    have hwhole := hname.whole
    rw [hcut.whole] at hwhole
    subst hwhole
    exact .authority hscheme hname.free
      ⟨rfl, fun c hc => hcut.free c (List.mem_cons_of_mem _ hc), hcut.stops⟩
      (Percent.respelled_self hspells.whole.tail)
  | bare hbare =>
    have hself := Respelled.bare hscheme hbare hcut (Percent.respelled_self hspells.whole)
    rw [← hcut.whole] at hself
    exact hself

/-! ## §4. Documents. -/

/-- Two names of one document are bound alike. -/
theorem forall₂_isBindingOf_congr {name name' : Text} (h : ofUrl name' = ofUrl name) (v : Json)
    (before after : Members) (bindings : List (DocumentUri × Text)) :
    List.Forall₂ DocumentMap.IsBindingOf (before ++ (name', v) :: after) bindings
      ↔ List.Forall₂ DocumentMap.IsBindingOf (before ++ (name, v) :: after) bindings := by
  induction before generalizing bindings with
  | nil =>
    simp only [List.nil_append, List.forall₂_cons_left_iff, DocumentMap.IsBindingOf, h]
  | cons member before ih =>
    simp only [List.cons_append, List.forall₂_cons_left_iff, ih]

/-- **Escaping more of a path never changes the document**: every URI of a document can be
respelled, and however that is done it is a URI of the same document, and as a name in an object
it is the same key. -/
theorem ofUrl_respelled {raw : Text} {d : DocumentUri} (hd : ofUrl raw = .ok d) :
    Respelled raw raw
      ∧ ∀ raw', Respelled raw raw' → ofUrl raw' = .ok d
        ∧ ∀ before after v payload payload' m,
          loadStrict payload = .valid (.object (before ++ (raw, v) :: after)) →
          loadStrict payload' = .valid (.object (before ++ (raw', v) :: after)) →
          (DocumentMap.ofJson payload' = .ok m ↔ DocumentMap.ofJson payload = .ok m) := by
  obtain ⟨t, hnames, hpath⟩ := ofUrl_eq_ok_iff.1 hd
  refine ⟨respelled_self hnames, ?_⟩
  intro raw' h
  have hd' : ofUrl raw' = .ok d := ofUrl_eq_ok_iff.2 ⟨t, names_of_respelled h hnames, hpath⟩
  refine ⟨hd', ?_⟩
  intro before after v payload payload' m hload hload'
  rw [DocumentMap.ofJson_eq_ok_iff hload', DocumentMap.ofJson_eq_ok_iff hload]
  simp only [forall₂_isBindingOf_congr (hd'.trans hd.symm)]

/-- A URI, and the same with the drive, its colon and the accented letter escaped. -/
def plainUrl : Text := "file:///C:/é%20b"

/-- The digits of the escapes are of either case; the slash and the escape at the end are kept. -/
def escapedUrl : Text := "file:///%43%3a/%C3%a9%20b"

theorem respelled_escapedUrl : Respelled plainUrl escapedUrl := by
  have hpath : Percent.Respelled
      [0x43, Ascii.colon, Ascii.slash, 0xE9, Ascii.percent, 0x32, 0x30, 0x62]
      ([Ascii.percent, 0x34, 0x33] ++ ([Ascii.percent, 0x33, 0x61] ++ Ascii.slash ::
        ([Ascii.percent, 0x43, 0x33, Ascii.percent, 0x61, 0x39] ++
          [Ascii.percent, 0x32, 0x30, 0x62]))) :=
    .replace (by decide) (.cons rfl rfl .nil) <|
    .replace (by decide) (.cons rfl rfl .nil) <|
    .keep (by decide) <|
    .replace (by decide) (.cons rfl rfl (.cons rfl rfl .nil)) <|
    .escape rfl rfl (.keep (by decide) .nil)
  exact @Respelled.authority "file" [] _ _ _ [] (by decide) (by decide) (.of_free (by decide)) hpath

/-- The two are one document, and one key of a mapping. -/
theorem ofUrl_respelled_drive :
    (∃ d : DocumentUri, d.path = Text.ofString "c:/é b"
        ∧ ofUrl plainUrl = .ok d ∧ ofUrl escapedUrl = .ok d)
      ∧ ∀ m, DocumentMap.ofJson (.text (Json.print (.object [(escapedUrl, .string "1")]))) = .ok m
        ↔ DocumentMap.ofJson (.text (Json.print (.object [(plainUrl, .string "1")]))) = .ok m := by
  have hpath : (ofUrl plainUrl).toOption.map DocumentUri.path
      = some (Text.ofString "c:/é b") := by decide +kernel
  obtain ⟨d, hok, hpath⟩ := Option.map_eq_some_iff.1 hpath
  have hd := Result.toOption_eq_some_iff.1 hok
  obtain ⟨hd', hmapping⟩ := (ofUrl_respelled hd).2 _ respelled_escapedUrl
  have hload : ∀ name : Text, Json.HasNoSurrogate name →
      loadStrict (.text (Json.print (.object [(name, .string "1")])))
        = .valid (.object [(name, .string "1")]) := by
    intro name hname
    have hone : Json.HasNoSurrogate (Text.ofString "1") := by decide
    have hfree : ∀ b ∈ [(name, Text.ofString "1")],
        Json.HasNoSurrogate b.1 ∧ Json.HasNoSurrogate b.2 :=
      List.forall_mem_singleton.2 ⟨hname, hone⟩
    exact loadStrict_print hfree
  exact ⟨⟨d, hpath, hd, hd'⟩, fun m =>
    hmapping [] [] _ _ _ m (hload plainUrl (by decide)) (hload escapedUrl (by decide))⟩

end DocumentUri

end EditorWire
