/-
  EditorWire.Proofs.Json.Literal — strings in JSON texts, however they are escaped.

  A text has many literals: each code point may stand in them by itself or by an
  escape, and one beyond U+FFFF by the two halves of its pair.  What reads a
  literal reads them all alike, and so it is where they are the names of an
  object or the values in it:

      literal of t                                  →   .string t
      {literal of k₁ : e₁, …, literal of kₙ : eₙ}   →   .object [(k₁, v₁), …, (kₙ, vₙ)]

  Surrogates are only let through by some dialects, but in the literals of a text
  without them there are none either.

  Main results:
    * `IsLiteral.read` — a literal is read as the string of its text.
    * `read_objectText` — members side by side are read as the object of them.
    * `IsLiteral.hasNoSurrogate` — the literals of a text without surrogates have none.
    * `readValue_nestedArray` — arrays inside one another are not read beyond the last level.
-/
import EditorWire.Proofs.Json.Joined

namespace EditorWire.Json

variable {d : Dialect} {literal t : Text}

/-- `literal` is `t` as a string of a JSON text, escaped in one way or another. -/
def IsLiteral (literal t : Text) : Prop :=
  ∃ body pieces, literal = Ascii.quote :: body ∧ HasPieces body pieces [] ∧ joinPieces pieces = t

/-- A written string is a literal. -/
theorem isLiteral_printString (t : Text) : IsLiteral (printString t) t :=
  ⟨_, _, rfl, hasPieces_print t [], joinPieces_map_pieceOf t⟩

/-! ## §1. Reading a literal. -/

/-- Behind its first quote a literal is read as its text, wherever it is said to start. -/
theorem IsLiteral.readString_eq (h : IsLiteral literal t) (ht : d.Admits t) :
    ∃ body, literal = Ascii.quote :: body
      ∧ ∀ start rest, readString d start (body ++ rest) = .ok (t, rest) := by
  obtain ⟨body, pieces, rfl, hpieces, rfl⟩ := h
  refine ⟨body, rfl, fun start rest => ?_⟩
  exact readString_eq_ok_iff.2 ⟨pieces, hpieces.extend rest, rfl, ht⟩

/-- On every level a literal is a value, the string of its text. -/
theorem IsLiteral.isTextOf (h : IsLiteral literal t) (ht : d.Admits t) (n : Nat) :
    IsTextOf (readValue d n) literal (.string t) := by
  obtain ⟨body, rfl, hread⟩ := h.readString_eq ht
  have hbody := hread (Ascii.quote :: body) []
  rw [List.append_nil] at hbody
  refine ⟨[], ?_, rfl⟩
  show readValue d n (Ascii.quote :: body) = _
  rw [readValue_string, hbody]
  rfl

/-- **A literal is read as the string of its text.** -/
theorem IsLiteral.read (h : IsLiteral literal t) (ht : d.Admits t) :
    Json.read d literal = .ok (.string t) :=
  read_eq_ok_iff.2 (h.isTextOf ht d.maxNesting)

/-- So it is when it comes as a payload. -/
theorem IsLiteral.load (h : IsLiteral literal t) :
    Json.load (.text literal) = .ok (.string t) := by
  refine load_text_eq_ok_iff.2 ⟨?_, h.read rfl⟩
  obtain ⟨body, -, rfl, -⟩ := h
  rw [List.head?_cons]
  decide

/-- No atom is a string or an object. -/
theorem ne_of_readAtom_eq_ok {s r : Text} {v : Json} (h : readAtom d s = .ok (v, r)) :
    (∀ x, v ≠ .string x) ∧ ∀ members, v ≠ .object members := by
  rcases readAtom_eq_ok_iff.1 h with hnamed | ⟨-, n, -, hn⟩
  · obtain ⟨name, hentry, -⟩ := readNamed?_eq_some_iff.1 hnamed
    constructor
    · intro x hx
      simp [namedValues, hx] at hentry
    · intro members hmembers
      simp [namedValues, hmembers] at hentry
  · unfold Numeral.value at hn
    split at hn
    · cases hn
    split at hn
    · rw [← Except.ok.inj hn]
      simp
    · rw [← Except.ok.inj hn]
      simp

/-- A string that is read is one the dialect lets through. -/
theorem admits_of_readValue {n : Nat} {s r : Text}
    (h : readValue d n s = .ok (.string t, r)) : d.Admits t := by
  rcases readValue_eq_ok_iff.1 h with ⟨_, x, -, hx, heq⟩ | ⟨_, _, -, -, -, heq⟩ |
    ⟨_, _, -, -, -, heq⟩ | hatom
  · obtain ⟨-, -, -, hadmits⟩ := readString_eq_ok_iff.1 hx
    rw [Json.string.inj heq]
    exact hadmits
  · cases heq
  · cases heq
  · exact absurd rfl ((ne_of_readAtom_eq_ok hatom).1 t)

/-! ## §2. Objects of literals. -/

/-- The text of a member: its name, a colon and its value. -/
def memberText (name value : Text) : Text := name ++ Ascii.colon :: value

/-- The texts of members with commas between them and braces around them. -/
def objectText (texts : List Text) : Text :=
  Ascii.openBrace :: (Text.joinWith [Ascii.comma] texts ++ [Ascii.closeBrace])

/-- A member is read from a literal of its name and a text of its value. -/
theorem IsLiteral.isTextOf_memberText {item : ItemReader} {e : Text} {v : Json}
    (h : IsLiteral literal t) (ht : d.Admits t) (hv : IsTextOf item e v) :
    IsTextOf (readMember d item) (memberText literal e) (t, v) := by
  obtain ⟨body, rfl, hread⟩ := h.readString_eq ht
  obtain ⟨r, hitem, hblank⟩ := hv
  refine ⟨r, ?_, hblank⟩
  show readMember d item (Ascii.quote :: (body ++ Ascii.colon :: e)) = _
  exact readMember_eq_ok_iff.2 ⟨_, _, e, rfl, hread _ _, rfl, hitem⟩

theorem extends_innerReader (n : Nat) : Extends (innerReader d n) := by
  cases n with
  | zero => exact extends_readTooDeep
  | succ n => exact extends_readValue n

/-- **Members side by side are read as the object of them**, where one may begin. -/
theorem read_objectText {texts : List Text} {members : Members} (hd : d.Opens d.maxNesting)
    (h : List.Forall₂ (IsTextOf (readMember d (innerReader d d.maxNesting))) texts members) :
    Json.read d (objectText texts) = .ok (objectOf d members) := by
  have hobject : readObject d (innerReader d d.maxNesting)
      (Text.joinWith [Ascii.comma] texts ++ [Ascii.closeBrace]) = .ok (members, []) := by
    rw [readObject_eq_readEnclosed]
    refine readEnclosed_joinWith (extends_innerReader _).readMember (.inr rfl)
      (fun s result h => ?_) h []
    cases h
  refine read_eq_ok_iff.2 ⟨[], ?_, rfl⟩
  show readValue d d.maxNesting (objectText texts) = _
  rw [objectText, readValue_object hd, hobject]
  rfl

/-- The members of strings. -/
def stringMembers (bindings : List (Text × Text)) : Members :=
  bindings.map fun b => (b.1, .string b.2)

/-- An object of strings is written as its members side by side. -/
theorem print_stringMembers (bindings : List (Text × Text)) :
    print (.object (stringMembers bindings))
      = objectText (bindings.map fun b => memberText (printString b.1) (printString b.2)) := by
  rw [print, printMembers_eq_map, stringMembers, List.map_map]
  rfl

/-! ## §3. Surrogates. -/

/-- No surrogate stands in the text. -/
def HasNoSurrogate (t : Text) : Prop := ∀ c ∈ t, ¬ IsSurrogate c

instance (t : Text) : Decidable (HasNoSurrogate t) :=
  inferInstanceAs (Decidable (∀ c ∈ t, ¬ IsSurrogate c))

/-- A dialect without surrogates lets through what has none. -/
theorem admits_iff_hasNoSurrogate (hd : d.loneSurrogates = false) :
    d.Admits t ↔ HasNoSurrogate t := by
  simp [Dialect.Admits, hd, HasNoSurrogate]

theorem not_isSurrogate_of_lt {c : Nat} (h : c < 0x80) : ¬ IsSurrogate c := by
  unfold IsSurrogate
  omega

/-- A hexadecimal digit is none. -/
theorem not_isSurrogate_of_isHexDigit {c : Nat} (h : CodePoint.isHexDigit c = true) :
    ¬ IsSurrogate c := by
  rw [CodePoint.isHexDigit_iff] at h
  exact not_isSurrogate_of_lt (by omega)

/-- What stands in a string by itself stands in its text. -/
theorem mem_joinPieces {c : Nat} {pieces : List Piece} (h : .plain c ∈ pieces) :
    c ∈ joinPieces pieces := by
  induction pieces using joinPieces.induct with
  | case1 => cases h
  | case2 c' r ih =>
    rw [joinPieces]
    rcases List.mem_cons.1 h with heq | h
    · rw [Piece.plain.inj heq]
      exact List.mem_cons_self
    · exact List.mem_cons_of_mem _ (ih h)
  | case3 n m r hpair ih =>
    rw [joinPieces, if_pos hpair]
    simp only [List.mem_cons, reduceCtorEq, false_or] at h
    exact List.mem_cons_of_mem _ (ih h)
  | case4 n m r hpair ih =>
    rw [joinPieces, if_neg hpair]
    simp only [List.mem_cons, reduceCtorEq, false_or] at h
    exact List.mem_cons_of_mem _ (ih (by simp [h]))
  | case5 n r hnext ih =>
    rw [joinPieces]
    · simp only [List.mem_cons, reduceCtorEq, false_or] at h
      exact List.mem_cons_of_mem _ (ih h)
    · exact hnext

/-- Escapes are ASCII, so no surrogate stands in a string if none stands there by itself. -/
theorem HasPieces.hasNoSurrogate {s r : Text} {pieces : List Piece} (h : HasPieces s pieces r)
    (hpieces : ∀ c, .plain c ∈ pieces → ¬ IsSurrogate c) (hr : HasNoSurrogate r) :
    HasNoSurrogate s := by
  induction h with
  | quote r =>
    exact List.forall_mem_cons.2 ⟨by decide, hr⟩
  | @plain c s r pieces _ _ _ _ ih =>
    exact List.forall_mem_cons.2 ⟨hpieces c List.mem_cons_self,
      ih (fun c hc => hpieces c (List.mem_cons_of_mem _ hc)) hr⟩
  | short he _ ih =>
    refine List.forall_mem_cons.2 ⟨by decide, List.forall_mem_cons.2 ⟨?_, ?_⟩⟩
    · have hrange := range_of_shortEscape? he
      exact not_isSurrogate_of_lt (by omega)
    · exact ih (fun c hc => hpieces c (List.mem_cons_of_mem _ hc)) hr
  | numeric hn _ ih =>
    obtain ⟨h₁, h₂, h₃, h₄⟩ := isHexDigit_of_hexQuad? hn
    have hrest := ih (fun c hc => hpieces c (List.mem_cons_of_mem _ hc)) hr
    simp only [HasNoSurrogate, List.forall_mem_cons]
    exact ⟨by decide, by decide, not_isSurrogate_of_isHexDigit h₁,
      not_isSurrogate_of_isHexDigit h₂, not_isSurrogate_of_isHexDigit h₃,
      not_isSurrogate_of_isHexDigit h₄, hrest⟩

/-- **The literals of a text without surrogates have none.** -/
theorem IsLiteral.hasNoSurrogate (h : IsLiteral literal t) (ht : HasNoSurrogate t) :
    HasNoSurrogate literal := by
  obtain ⟨body, pieces, rfl, hpieces, rfl⟩ := h
  exact List.forall_mem_cons.2 ⟨by decide,
    hpieces.hasNoSurrogate (fun c hc => ht c (mem_joinPieces hc))
      fun c hc => absurd hc List.not_mem_nil⟩

theorem HasNoSurrogate.append {s : Text} (hs : HasNoSurrogate s) (ht : HasNoSurrogate t) :
    HasNoSurrogate (s ++ t) :=
  List.forall_mem_append.2 ⟨hs, ht⟩

theorem HasNoSurrogate.memberText {name value : Text} (hname : HasNoSurrogate name)
    (hvalue : HasNoSurrogate value) : HasNoSurrogate (Json.memberText name value) :=
  hname.append (List.forall_mem_cons.2 ⟨by decide, hvalue⟩)

theorem hasNoSurrogate_objectText {texts : List Text} (h : ∀ e ∈ texts, HasNoSurrogate e) :
    HasNoSurrogate (objectText texts) := by
  have hjoin : HasNoSurrogate (Text.joinWith [Ascii.comma] texts) := by
    induction texts with
    | nil => exact fun c hc => absurd hc List.not_mem_nil
    | cons e texts ih =>
      obtain ⟨he, htexts⟩ := List.forall_mem_cons.1 h
      cases texts with
      | nil => exact he
      | cons e' texts =>
        exact (he.append (by decide)).append (ih htexts)
  exact List.forall_mem_cons.2 ⟨by decide, hjoin.append (by decide)⟩

/-! ## §4. Values nested too deep. -/

/-- Arrays inside one another, `n` of them around an empty one. -/
def nestedArray : Nat → Json
  | 0 => .array []
  | n + 1 => .array [nestedArray n]

theorem depth_nestedArray (n : Nat) : (nestedArray n).depth = n + 1 := by
  induction n with
  | zero => rfl
  | succ n ih => rw [nestedArray, depth, depthItems, depthItems, ih, Nat.max_zero]

/-- What arrays have whatever is in them, these have everywhere. -/
theorem everywhere_nestedArray {p : Json → Prop} (hp : ∀ items, p (.array items)) (n : Nat) :
    Everywhere p (nestedArray n) := by
  induction n with
  | zero => exact everywhere_array_iff.2 ⟨hp [], fun v hv => absurd hv List.not_mem_nil⟩
  | succ n ih => exact everywhere_array_iff.2 ⟨hp _, List.forall_mem_singleton.2 ih⟩

theorem print_nestedArray_succ (n : Nat) :
    print (nestedArray (n + 1))
      = Ascii.openBracket :: (print (nestedArray n) ++ [Ascii.closeBracket]) := by
  simp [nestedArray, print, printItems, Text.joinWith]

theorem exists_print_nestedArray (n : Nat) :
    ∃ s, print (nestedArray n) = Ascii.openBracket :: s := by
  cases n with
  | zero => exact ⟨_, by rw [nestedArray, print]⟩
  | succ n => exact ⟨_, print_nestedArray_succ n⟩

theorem hasNoSurrogate_nestedArray (n : Nat) : HasNoSurrogate (print (nestedArray n)) := by
  induction n with
  | zero => decide
  | succ n ih =>
    rw [print_nestedArray_succ]
    exact List.forall_mem_cons.2 ⟨by decide, ih.append (by decide)⟩

/-- An object of one member is written as the member. -/
theorem print_object_singleton (m : Text × Json) :
    print (.object [m]) = objectText [memberText (printString m.1) (print m.2)] := by
  rw [print, printMembers_eq_map]
  rfl

theorem hasNoSurrogate_nestedObject (ht : HasNoSurrogate t) (n : Nat) :
    HasNoSurrogate (print (.object [(t, nestedArray n)])) := by
  have hname := (isLiteral_printString t).hasNoSurrogate ht
  rw [print_object_singleton]
  exact hasNoSurrogate_objectText
    (List.forall_mem_singleton.2 (hname.memberText (hasNoSurrogate_nestedArray n)))

/-- Where the inner array is too deep, the outer one is. -/
theorem readValue_nestedArray_succ {n k : Nat}
    (hinner : ∀ rest, innerReader d n (print (nestedArray k) ++ rest) = .error .tooDeep)
    (rest : Text) : readValue d n (print (nestedArray (k + 1)) ++ rest) = .error .tooDeep := by
  obtain ⟨s, hs⟩ := exists_print_nestedArray k
  have hfirst := hinner (Ascii.closeBracket :: rest)
  rw [hs, List.cons_append] at hfirst
  rw [print_nestedArray_succ, hs]
  simp only [List.cons_append, List.append_assoc, List.nil_append]
  by_cases hn : d.Opens n
  · rw [readValue_array hn]
    show ((innerReader d n (Ascii.openBracket :: (s ++ Ascii.closeBracket :: rest)) >>= _).map _)
      = _
    rw [hfirst]
    rfl
  · exact (readValue_of_not_opens hn _).1

/-- What is too deep on the last level is too deep inside as many arrays more as there are
levels. -/
theorem readValue_nestedArray_add {k : Nat}
    (hlast : ∀ rest, readValue d 0 (print (nestedArray k) ++ rest) = .error .tooDeep) (n : Nat)
    (rest : Text) : readValue d n (print (nestedArray (k + n)) ++ rest) = .error .tooDeep := by
  induction n generalizing rest with
  | zero => exact hlast rest
  | succ n ih =>
    have hinner : ∀ rest, innerReader d (n + 1) (print (nestedArray (k + n)) ++ rest)
        = .error .tooDeep := ih
    exact readValue_nestedArray_succ hinner rest

/-- **Arrays inside one another are not read beyond the last level**, not counting the innermost
one, which is empty. -/
theorem readValue_nestedArray (d : Dialect) {n k : Nat} (h : n < k) (rest : Text) :
    readValue d n (print (nestedArray k) ++ rest) = .error .tooDeep := by
  obtain ⟨j, rfl⟩ : ∃ j, k = j + 1 + n := ⟨k - 1 - n, by omega⟩
  exact readValue_nestedArray_add (readValue_nestedArray_succ fun _ => rfl) n rest

/-- Where the empty one is counted there is one level less. -/
theorem readValue_nestedArray_of_countsEmpty (hd : d.countsEmpty = true) {n k : Nat} (h : n ≤ k)
    (rest : Text) : readValue d n (print (nestedArray k) ++ rest) = .error .tooDeep := by
  obtain ⟨j, rfl⟩ : ∃ j, k = j + n := ⟨k - n, by omega⟩
  refine readValue_nestedArray_add (fun rest => ?_) n rest
  obtain ⟨s, hs⟩ := exists_print_nestedArray j
  rw [hs]
  exact (readValue_of_not_opens (Dialect.not_opens_iff.2 ⟨hd, rfl⟩) _).1

/-- Where the value of the only member is not read, the object is not. -/
theorem IsLiteral.read_objectText_error {e : Text} {fault : ReadFault} (h : IsLiteral literal t)
    (ht : d.Admits t) (hd : d.Opens d.maxNesting)
    (he : ∀ rest, innerReader d d.maxNesting (skipBlank (e ++ rest)) = .error fault) :
    Json.read d (objectText [memberText literal e]) = .error fault := by
  obtain ⟨body, rfl, hread⟩ := h.readString_eq ht
  have hmember : readMember d (innerReader d d.maxNesting)
      (Ascii.quote :: (body ++ Ascii.colon :: (e ++ [Ascii.closeBrace]))) = .error fault := by
    show (readString d _ (body ++ Ascii.colon :: (e ++ [Ascii.closeBrace])) >>= _) = _
    rw [hread]
    show (innerReader d d.maxNesting (skipBlank (e ++ [Ascii.closeBrace])) >>= _) = _
    rw [he]
    rfl
  have hobject : readObject d (innerReader d d.maxNesting)
      (Ascii.quote :: (body ++ Ascii.colon :: (e ++ [Ascii.closeBrace]))) = .error fault := by
    show (readMember d (innerReader d d.maxNesting) _ >>= _) = _
    rw [hmember]
    rfl
  have htext : objectText [memberText (Ascii.quote :: body) e]
      = Ascii.openBrace :: Ascii.quote :: (body ++ Ascii.colon :: (e ++ [Ascii.closeBrace])) := by
    simp [objectText, memberText, Text.joinWith]
  show (readValue d d.maxNesting (skipBlank (objectText _)) >>= _) = _
  rw [htext]
  show (readValue d d.maxNesting (Ascii.openBrace :: _) >>= _) = _
  rw [readValue_object hd, hobject]
  rfl

end EditorWire.Json
