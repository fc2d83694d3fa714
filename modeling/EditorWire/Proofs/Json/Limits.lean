/-
  EditorWire.Proofs.Json.Limits — texts that are too much for the reader.

  A text that is JSON can still run into a limit of the reader, which lets only so
  many arrays and objects lie inside one another and only so many digits stand in
  a number.  It does so at a place where a value is due, behind things that were
  all read:

      [ 1 , { "a" : 2 , "b" : [ … ] } ]
        ^   ^       ^         ^ ^
        one level fewer is left for a value behind each opening mark

  A fault of the text in front of such a place comes first, and what stands behind
  it is never seen, so the limit a text runs into is the fault it is reported with.
  In a payload every array and object takes a level, so where none is left the
  opening mark alone is too much, whatever stands behind it.

  Main results:
    * `readSeries_error`, `Behind.readSeries_error` — a series fails where one of it does.
    * `IsDue.read_error` — what fails where a value is due is the fault of the text.
    * `read_error_iff` — which texts run into a limit.
    * `Payload.overruns_tooDeep_iff` — which payloads are nested too deep.
    * `load_eq_longInteger_iff`, `load_eq_tooDeep_iff` — which payloads do, and into which.
-/
import EditorWire.Proofs.Json.Ending
import EditorWire.Proofs.Json.Literal

namespace EditorWire.Json

/-- The fault is a limit of the reader. -/
def ReadFault.IsLimit : ReadFault → Prop
  | .malformed .. => False
  | .longNumber _ => True
  | .tooDeep => True

variable {d : Dialect} {item : ItemReader}

/-! ## §1. Series. -/

section Series

variable {α : Type} {close : Nat} {missing : Reason} {one : Text → Except ReadFault (α × Text)}

/-- `rest` is the text, or stands in it behind a comma after things that are read. -/
inductive Behind (one : Text → Except ReadFault (α × Text)) : Text → Text → Prop where
  | here (t : Text) : Behind one t t
  | next {t r s rest : Text} {a : α} (ha : one t = .ok (a, r))
      (hcomma : skipBlank r = Ascii.comma :: s) (h : Behind one (skipBlank s) rest) :
      Behind one t rest

/-- A series runs into a limit where one of it does. -/
theorem readSeries_error {k : Nat} {t : Text} {fault : ReadFault} (hfault : fault.IsLimit)
    (h : readSeries close missing one k t = .error fault) :
    ∃ rest, Behind one t rest ∧ one rest = .error fault := by
  induction k generalizing t with
  | zero =>
    obtain rfl := Except.error.inj h
    exact hfault.elim
  | succ k ih =>
    rw [readSeries] at h
    rcases Result.bind_eq_error_iff.1 h with hone | ⟨⟨a, r⟩, ha, h⟩
    · exact ⟨t, .here t, hone⟩
    · -- one was read, so the fault is further on
      simp only at h
      split at h
      · obtain rfl := Except.error.inj h
        exact hfault.elim
      next c s hs =>
      split at h
      · cases h
      split at h
      · next hc =>
        rcases Result.bind_eq_error_iff.1 h with hseries | ⟨_, -, h⟩
        · obtain ⟨rest, hrest, hone⟩ := ih hseries
          exact ⟨rest, .next ha (hc ▸ hs) hrest, hone⟩
        · cases h
      · obtain rfl := Except.error.inj h
        exact hfault.elim

/-- Where one of it fails a series fails, if there is a round for each code point. -/
theorem Behind.readSeries_error (hone : LeavesEnding one) (hclose : close ≠ Ascii.comma)
    {t rest : Text} {fault : ReadFault} (h : Behind one t rest) (hrest : one rest = .error fault)
    {k : Nat} (hk : t.length < k) : readSeries close missing one k t = .error fault := by
  induction h generalizing k with
  | here t =>
    obtain ⟨j, rfl⟩ : ∃ j, k = j + 1 := ⟨k - 1, by omega⟩
    exact Result.bind_eq_error_iff.2 (.inl hrest)
  | @next t r s rest a ha hcomma _ ih =>
    obtain ⟨j, rfl⟩ : ∃ j, k = j + 1 := ⟨k - 1, by omega⟩
    -- the comma is gone, so what is left is shorter
    have hshorter : (skipBlank s).length < t.length := by
      have hr := (hone t a r ha).length_le
      have hblank := (leaves_skipBlank r).length_le
      have hs := (leaves_skipBlank s).length_le
      rw [hcomma, List.length_cons] at hblank
      omega
    refine Result.bind_eq_error_iff.2 (.inr ⟨(a, r), ha, ?_⟩)
    simp only
    rw [hcomma]
    simp only [if_neg (Ne.symm hclose), if_true]
    exact Result.bind_eq_error_iff.2 (.inl (ih hrest (by omega)))

/-- `rest` is due in the series behind an opening mark. -/
structure IsEnclosed (close : Nat) (one : Text → Except ReadFault (α × Text)) (t rest : Text) :
    Prop where
  notEmpty : (skipBlank t).head? ≠ some close
  behind : Behind one (skipBlank t) rest

theorem readEnclosed_error {t : Text} {fault : ReadFault} (hfault : fault.IsLimit)
    (h : readEnclosed close missing one t = .error fault) :
    ∃ rest, IsEnclosed close one t rest ∧ one rest = .error fault := by
  unfold readEnclosed at h
  split at h
  · cases h
  · next hhead =>
    obtain ⟨rest, hrest, hone⟩ := readSeries_error hfault h
    exact ⟨rest, ⟨hhead, hrest⟩, hone⟩

theorem IsEnclosed.readEnclosed_error (hone : LeavesEnding one) (hclose : close ≠ Ascii.comma)
    {t rest : Text} {fault : ReadFault} (h : IsEnclosed close one t rest)
    (hrest : one rest = .error fault) : readEnclosed close missing one t = .error fault := by
  unfold readEnclosed
  rw [if_neg h.notEmpty]
  exact h.behind.readSeries_error hone hclose hrest (Nat.lt_succ_self _)

end Series

/-! ## §2. Values that are due. -/

/-- A value is due behind the name of a member. -/
def IsNamed (d : Dialect) (t rest : Text) : Prop :=
  ∃ s name r r', t = Ascii.quote :: s ∧ readString d t s = .ok (name, r)
    ∧ skipBlank r = Ascii.colon :: r' ∧ rest = skipBlank r'

/-- A value is due at `rest` in the text, and as many levels of values are left there: behind the
blanks in front of the text, and in every array and object that may begin behind things that are
read. -/
inductive IsDue (d : Dialect) (t : Text) : (levels : Nat) → Text → Prop where
  | whole : IsDue d t (d.maxNesting + 1) (skipBlank t)
  | item {n : Nat} {s rest : Text} (h : IsDue d t (n + 1) (Ascii.openBracket :: s))
      (hn : d.Opens n) (hrest : IsEnclosed Ascii.closeBracket (innerReader d n) s rest) :
      IsDue d t n rest
  | member {n : Nat} {s m rest : Text} (h : IsDue d t (n + 1) (Ascii.openBrace :: s))
      (hn : d.Opens n) (hm : IsEnclosed Ascii.closeBrace (readMember d (innerReader d n)) s m)
      (hrest : IsNamed d m rest) : IsDue d t n rest

/-- An array or object begins. -/
def BeginsNested (t : Text) : Prop :=
  ∃ s, t = Ascii.openBracket :: s ∨ t = Ascii.openBrace :: s

/-- The text runs into a limit: where a value is due stands a number that is too long, or an array
or object that may not begin, or no level is left for any value. -/
inductive Overruns (d : Dialect) (t : Text) : ReadFault → Prop where
  | number {n : Nat} {rest r : Text} {numeral : Numeral} (h : IsDue d t (n + 1) rest)
      (hnumeral : readNumeral? rest = some (numeral, r)) (hlong : d.isTooLong numeral = true) :
      Overruns d t (.longNumber numeral.whole.length)
  | opening {n : Nat} {rest : Text} (h : IsDue d t (n + 1) rest) (hrest : BeginsNested rest)
      (hn : ¬ d.Opens n) : Overruns d t .tooDeep
  | nesting {rest : Text} (h : IsDue d t 0 rest) : Overruns d t .tooDeep

theorem Overruns.isLimit {t : Text} {fault : ReadFault} (h : Overruns d t fault) :
    fault.IsLimit := by
  cases h <;> trivial

/-! ## §3. From the fault to its place. -/

/-- Strings have no limit. -/
theorem readPieces_error {start t : Text} {fault : ReadFault}
    (h : readPieces start t = .error fault) : ¬ fault.IsLimit := by
  fun_induction readPieces start t with
  | case2 => cases h
  | case4 _ _ _ _ _ _ _ _ _ ih => exact ih (Result.map_eq_error_iff.1 h)
  | case7 _ _ _ _ _ _ ih => exact ih (Result.map_eq_error_iff.1 h)
  | case10 _ _ _ _ _ ih => exact ih (Result.map_eq_error_iff.1 h)
  | case1 | case3 | case5 | case6 | case8 | case9 =>
    obtain rfl := Except.error.inj h
    exact id

theorem readString_error {start body : Text} {fault : ReadFault}
    (h : readString d start body = .error fault) : ¬ fault.IsLimit := by
  rcases Result.bind_eq_error_iff.1 h with hpieces | ⟨⟨pieces, r⟩, -, h⟩
  · exact readPieces_error hpieces
  · simp only at h
    split at h
    · obtain rfl := Except.error.inj h
      exact id
    · cases h

/-- A member runs into a limit where its value does. -/
theorem readMember_error {t : Text} {fault : ReadFault} (hfault : fault.IsLimit)
    (h : readMember d item t = .error fault) :
    ∃ rest, IsNamed d t rest ∧ item rest = .error fault := by
  unfold readMember at h
  split at h
  · next s =>
    rcases Result.bind_eq_error_iff.1 h with hname | ⟨⟨name, r⟩, hname, h⟩
    · exact absurd hfault (readString_error hname)
    simp only at h
    split at h
    · next r' hcolon =>
      rcases Result.bind_eq_error_iff.1 h with hitem | ⟨_, -, h⟩
      · exact ⟨skipBlank r', ⟨s, name, r, r', rfl, hname, hcolon, rfl⟩, hitem⟩
      · cases h
    · obtain rfl := Except.error.inj h
      exact hfault.elim
  · obtain rfl := Except.error.inj h
    exact hfault.elim

/-- Among atoms only numbers have a limit. -/
theorem readAtom_error {t : Text} {fault : ReadFault} (hfault : fault.IsLimit)
    (h : readAtom d t = .error fault) :
    ∃ numeral r, readNumeral? t = some (numeral, r) ∧ d.isTooLong numeral = true
      ∧ fault = .longNumber numeral.whole.length := by
  unfold readAtom at h
  split at h
  · cases h
  split at h
  · next numeral r hnumeral =>
    rw [Result.map_eq_error_iff] at h
    unfold Numeral.value at h
    split at h
    · next hlong => exact ⟨numeral, r, hnumeral, hlong, (Except.error.inj h).symm⟩
    split at h
    · cases h
    · cases h
  · obtain rfl := Except.error.inj h
    exact hfault.elim

/-- A value runs into a limit as a number, as what may not begin, or where something in it
does. -/
theorem readValue_error {n : Nat} {t : Text} {fault : ReadFault} (hfault : fault.IsLimit)
    (h : readValue d n t = .error fault) :
    (∃ s rest, t = Ascii.openBracket :: s ∧ d.Opens n
        ∧ IsEnclosed Ascii.closeBracket (innerReader d n) s rest
        ∧ innerReader d n rest = .error fault)
      ∨ (∃ s m rest, t = Ascii.openBrace :: s ∧ d.Opens n
        ∧ IsEnclosed Ascii.closeBrace (readMember d (innerReader d n)) s m ∧ IsNamed d m rest
        ∧ innerReader d n rest = .error fault)
      ∨ (BeginsNested t ∧ ¬ d.Opens n ∧ fault = .tooDeep)
      ∨ ∃ numeral r, readNumeral? t = some (numeral, r) ∧ d.isTooLong numeral = true
        ∧ fault = .longNumber numeral.whole.length := by
  by_cases hquote : ∃ s, t = Ascii.quote :: s
  · obtain ⟨s, rfl⟩ := hquote
    rw [readValue_string, Result.map_eq_error_iff] at h
    exact absurd hfault (readString_error h)
  by_cases hbracket : ∃ s, t = Ascii.openBracket :: s
  · obtain ⟨s, rfl⟩ := hbracket
    by_cases hn : d.Opens n
    · rw [readValue_array hn, Result.map_eq_error_iff, readArray_eq_readEnclosed] at h
      obtain ⟨rest, hrest, hinner⟩ := readEnclosed_error hfault h
      exact .inl ⟨s, rest, rfl, hn, hrest, hinner⟩
    · rw [(readValue_of_not_opens hn s).1] at h
      exact .inr (.inr (.inl ⟨⟨s, .inl rfl⟩, hn, (Except.error.inj h).symm⟩))
  by_cases hbrace : ∃ s, t = Ascii.openBrace :: s
  · obtain ⟨s, rfl⟩ := hbrace
    by_cases hn : d.Opens n
    · rw [readValue_object hn, Result.map_eq_error_iff, readObject_eq_readEnclosed] at h
      obtain ⟨m, hm, hmember⟩ := readEnclosed_error hfault h
      obtain ⟨rest, hrest, hinner⟩ := readMember_error hfault hmember
      exact .inr (.inl ⟨s, m, rest, rfl, hn, hm, hrest, hinner⟩)
    · rw [(readValue_of_not_opens hn s).2] at h
      exact .inr (.inr (.inl ⟨⟨s, .inr rfl⟩, hn, (Except.error.inj h).symm⟩))
  · rw [readValue_atom n (fun s hs => hquote ⟨s, hs⟩) (fun s hs => hbracket ⟨s, hs⟩)
      (fun s hs => hbrace ⟨s, hs⟩)] at h
    exact .inr (.inr (.inr (readAtom_error hfault h)))

/-- **A limit that is met where a value is due is met at a place the text is led to.** -/
theorem IsDue.overruns {t rest : Text} {n : Nat} {fault : ReadFault} (h : IsDue d t n rest)
    (hfault : fault.IsLimit) (hrest : innerReader d n rest = .error fault) :
    Overruns d t fault := by
  induction n generalizing rest with
  | zero =>
    obtain rfl := Except.error.inj hrest
    exact .nesting h
  | succ n ih =>
    rcases readValue_error hfault hrest with ⟨s, rest', rfl, hn, henclosed, hinner⟩ |
      ⟨s, m, rest', rfl, hn, hm, hnamed, hinner⟩ | ⟨hbegins, hn, rfl⟩ |
      ⟨numeral, r, hnumeral, hlong, rfl⟩
    · exact ih (.item h hn henclosed) hinner
    · exact ih (.member h hn hm hnamed) hinner
    · exact .opening h hbegins hn
    · exact .number h hnumeral hlong

/-! ## §4. From the place to the fault. -/

/-- A member fails where its value does. -/
theorem IsNamed.readMember_error {t rest : Text} {fault : ReadFault} (h : IsNamed d t rest)
    (hrest : item rest = .error fault) : readMember d item t = .error fault := by
  obtain ⟨s, name, r, r', rfl, hname, hcolon, rfl⟩ := h
  refine Result.bind_eq_error_iff.2 (.inr ⟨(name, r), hname, ?_⟩)
  simp only
  rw [hcolon]
  exact Result.bind_eq_error_iff.2 (.inl hrest)

/-- A number that is too long is no value, on any level. -/
theorem readValue_longNumber {n : Nat} {t r : Text} {numeral : Numeral}
    (hnumeral : readNumeral? t = some (numeral, r)) (hlong : d.isTooLong numeral = true) :
    readValue d n t = .error (.longNumber numeral.whole.length) := by
  have hnamed : readNamed? t = none := by
    obtain ⟨c, s, rfl, hc⟩ := exists_digit_of_readNumeral? hnumeral
    exact readNamed?_signed numeral.negative s hc
  have hne : ∀ s, t ≠ Ascii.quote :: s ∧ t ≠ Ascii.openBracket :: s ∧ t ≠ Ascii.openBrace :: s := by
    intro s
    refine ⟨?_, ?_, ?_⟩ <;>
      · rintro rfl
        cases hnumeral
  rw [readValue_atom n (fun s => (hne s).1) (fun s => (hne s).2.1) (fun s => (hne s).2.2)]
  unfold readAtom
  rw [hnamed, hnumeral]
  simp only
  rw [Result.map_eq_error_iff]
  exact if_pos hlong

/-- **What fails where a value is due is the fault of the text.** -/
theorem IsDue.read_error {t rest : Text} {n : Nat} {fault : ReadFault} (h : IsDue d t n rest)
    (hrest : innerReader d n rest = .error fault) : read d t = .error fault := by
  induction h with
  | whole => exact Result.bind_eq_error_iff.2 (.inl hrest)
  | @item n s rest _ hn henclosed ih =>
    refine ih ?_
    show readValue d n (Ascii.openBracket :: s) = _
    rw [readValue_array hn, Result.map_eq_error_iff, readArray_eq_readEnclosed]
    exact henclosed.readEnclosed_error (leavesEnding_innerReader n) (by decide) hrest
  | @member n s m rest _ hn hm hnamed ih =>
    refine ih ?_
    show readValue d n (Ascii.openBrace :: s) = _
    rw [readValue_object hn, Result.map_eq_error_iff, readObject_eq_readEnclosed]
    exact hm.readEnclosed_error (leavesEnding_innerReader n).readMember (by decide)
      (hnamed.readMember_error hrest)

/-- What may not begin is no value either. -/
theorem BeginsNested.readValue_eq {n : Nat} {t : Text} (h : BeginsNested t) (hn : ¬ d.Opens n) :
    readValue d n t = .error .tooDeep := by
  obtain ⟨s, rfl | rfl⟩ := h
  · exact (readValue_of_not_opens hn s).1
  · exact (readValue_of_not_opens hn s).2

theorem Overruns.read_error {t : Text} {fault : ReadFault} (h : Overruns d t fault) :
    read d t = .error fault := by
  cases h with
  | number h hnumeral hlong => exact h.read_error (readValue_longNumber hnumeral hlong)
  | opening h hbegins hn => exact h.read_error (hbegins.readValue_eq hn)
  | nesting h => exact h.read_error rfl

/-! ## §5. Texts and payloads. -/

/-- **A text runs into a limit of the reader exactly if it is led to one** where a value is due. -/
theorem read_error_iff {t : Text} {fault : ReadFault} (hfault : fault.IsLimit) :
    read d t = .error fault ↔ Overruns d t fault := by
  refine ⟨fun h => ?_, Overruns.read_error⟩
  rcases Result.bind_eq_error_iff.1 h with hvalue | ⟨⟨v, r⟩, -, h⟩
  · exact IsDue.whole.overruns hfault hvalue
  · simp only at h
    split at h
    · cases h
    · obtain rfl := Except.error.inj h
      exact hfault.elim

/-- The text of the payload runs into the limit, so many levels being left for it. -/
def Payload.Overruns (levels : Nat) (payload : Payload) (fault : ReadFault) : Prop :=
  ∃ t, Payload.decode payload = .ok t ∧ Json.Overruns (payloadDialect levels) t fault

variable {levels : Nat}

/-- Nothing of a payload is due below the last level, as nothing begins there that could hold
it. -/
theorem IsDue.ne_zero {t rest : Text} {n : Nat} (h : IsDue (payloadDialect levels) t n rest) :
    n ≠ 0 := by
  cases h with
  | whole => exact Nat.succ_ne_zero _
  | item _ hn _ => exact hn rfl
  | member _ hn _ _ => exact hn rfl

/-- **A payload is nested too deep exactly if its text is led to an array or object for which no
level is left.** -/
theorem Payload.overruns_tooDeep_iff {payload : Payload} :
    Payload.Overruns levels payload .tooDeep
      ↔ ∃ t rest, Payload.decode payload = .ok t ∧ IsDue (payloadDialect levels) t 1 rest
        ∧ BeginsNested rest := by
  constructor
  · rintro ⟨t, ht, h⟩
    cases h with
    | @opening n rest h hbegins hn =>
      obtain ⟨-, rfl⟩ := Dialect.not_opens_iff.1 hn
      exact ⟨t, rest, ht, h, hbegins⟩
    | nesting h => exact absurd rfl h.ne_zero
  · rintro ⟨t, rest, ht, h, hbegins⟩
    exact ⟨t, ht, .opening h hbegins (Dialect.not_opens_iff.2 ⟨rfl, rfl⟩)⟩

/-- A payload is not loaded because it is no text, or because its text is not read. -/
theorem load_eq_error_iff {payload : Payload} {fault : LoadFault} :
    load payload levels = .error fault
      ↔ (∃ m, Payload.decode payload = .error m ∧ LoadFault.malformed m = fault)
        ∨ ∃ t f, Payload.decode payload = .ok t ∧ read (payloadDialect levels) t = .error f
          ∧ LoadFault.ofRead t f = fault := by
  unfold load
  simp only [Result.bind_eq_error_iff, Result.mapError_eq_error_iff, Result.mapError_eq_ok_iff]
  refine or_congr_right (exists_congr fun t => ?_)
  constructor
  · rintro ⟨ht, f, hread, hfault⟩
    exact ⟨f, ht, hread, hfault⟩
  · rintro ⟨f, ht, hread, hfault⟩
    exact ⟨ht, f, hread, hfault⟩

/-- **A payload has an integer that is too long exactly if its text is led to one.** -/
theorem load_eq_longInteger_iff {payload : Payload} {digits : Nat} :
    load payload levels = .error (.longInteger digits)
      ↔ Payload.Overruns levels payload (.longNumber digits) := by
  rw [load_eq_error_iff]
  constructor
  · rintro (⟨m, -, heq⟩ | ⟨t, f, ht, hread, heq⟩)
    · cases heq
    · cases f with
      | malformed | tooDeep => cases heq
      | longNumber n =>
        obtain rfl := LoadFault.longInteger.inj heq
        have hlimit : ReadFault.IsLimit (.longNumber n) := trivial
        exact ⟨t, ht, (read_error_iff hlimit).1 hread⟩
  · rintro ⟨t, ht, h⟩
    exact .inr ⟨t, _, ht, h.read_error, rfl⟩

/-- **A payload is nested too deep exactly if no level is left for a value in its text.** -/
theorem load_eq_tooDeep_iff {payload : Payload} :
    load payload levels = .error .tooDeep ↔ Payload.Overruns levels payload .tooDeep := by
  rw [load_eq_error_iff]
  constructor
  · rintro (⟨m, -, heq⟩ | ⟨t, f, ht, hread, heq⟩)
    · cases heq
    · cases f with
      | malformed | longNumber => cases heq
      | tooDeep =>
        have hlimit : ReadFault.IsLimit .tooDeep := trivial
        exact ⟨t, ht, (read_error_iff hlimit).1 hread⟩
  · rintro ⟨t, ht, h⟩
    exact .inr ⟨t, _, ht, h.read_error, rfl⟩

/-- The payload runs into some limit exactly if it is not loaded, though nothing in it is wrong as
far as it was read. -/
theorem exists_overruns_iff {payload : Payload} :
    (∃ fault, Payload.Overruns levels payload fault)
      ↔ ∃ fault, load payload levels = .error fault ∧ ∀ m, fault ≠ .malformed m := by
  constructor
  · rintro ⟨fault, h⟩
    cases fault with
    | malformed =>
      obtain ⟨t, -, h⟩ := h
      exact h.isLimit.elim
    | longNumber digits =>
      exact ⟨_, load_eq_longInteger_iff.2 h, fun _ heq => LoadFault.noConfusion heq⟩
    | tooDeep => exact ⟨_, load_eq_tooDeep_iff.2 h, fun _ heq => LoadFault.noConfusion heq⟩
  · rintro ⟨fault, hload, hfault⟩
    cases fault with
    | malformed m => exact absurd rfl (hfault m)
    | longInteger digits => exact ⟨_, load_eq_longInteger_iff.1 hload⟩
    | tooDeep => exact ⟨_, load_eq_tooDeep_iff.1 hload⟩

/-- What is too long for a payload has more than 4300 digits. -/
theorem Payload.Overruns.lt_digits {payload : Payload} {digits : Nat}
    (h : Payload.Overruns levels payload (.longNumber digits)) : 4300 < digits := by
  obtain ⟨t, -, h⟩ := h
  cases h with
  | number _ _ hlong => exact of_decide_eq_true (Bool.and_eq_true_iff.1 hlong).2

/-! ## §6. Payloads beyond the limits. -/

/-- A number of ones side by side. -/
def Written.ones (n : Nat) : Written := ⟨false, List.replicate n 0x31, [], none⟩

theorem Written.text_ones (n : Nat) : (Written.ones n).text = List.replicate n 0x31 := by
  show List.replicate n 0x31 ++ [] ++ [] = _
  rw [List.append_nil, List.append_nil]

theorem Written.isProper_ones (n : Nat) : (Written.ones (n + 1)).IsProper where
  whole_digits := by
    intro c hc
    rw [List.eq_of_mem_replicate hc]
    rfl
  whole_head := .inr ⟨0x31, List.replicate n 0x31, rfl, by decide⟩
  fraction_digits := by
    intro c hc
    cases hc
  exponent_digits := noExponent_digits

/-- Too many digits are too many wherever the number stands, here by itself. -/
theorem overruns_ones {n : Nat} (h : 4300 < n) :
    Payload.Overruns levels (.text (List.replicate n 0x31)) (.longNumber n) := by
  obtain ⟨n, rfl⟩ : ∃ k, n = k + 1 := ⟨n - 1, by omega⟩
  have hnumeral : readNumeral? (List.replicate (n + 1) 0x31)
      = some ((Written.ones (n + 1)).numeral, []) := by
    rw [← Written.text_ones, ← List.append_nil (Written.ones (n + 1)).text]
    exact readNumeral?_text (Written.isProper_ones n) delimited_nil
  have hlength : (Written.ones (n + 1)).numeral.whole.length = n + 1 := List.length_replicate
  have hlong : (payloadDialect levels).isTooLong (Written.ones (n + 1)).numeral = true := by
    refine Bool.and_eq_true_iff.2 ⟨rfl, decide_eq_true ?_⟩
    rw [hlength]
    exact h
  have hmark : (List.replicate (n + 1) 0x31).head? ≠ some byteOrderMark :=
    fun heq => absurd (Option.some.inj heq) (by decide)
  have hover : Overruns (payloadDialect levels) (List.replicate (n + 1) 0x31)
      (.longNumber (Written.ones (n + 1)).numeral.whole.length) := .number .whole hnumeral hlong
  rw [hlength] at hover
  exact ⟨_, decode_text_eq_ok_iff.2 ⟨hmark, rfl⟩, hover⟩

/-- So are arrays inside one another when no level is left for the innermost one. -/
theorem overruns_nestedArray {n : Nat} (h : levels ≤ n) :
    Payload.Overruns levels (.text (print (nestedArray n))) .tooDeep := by
  obtain ⟨s, hs⟩ := exists_print_nestedArray n
  have hmark : (print (nestedArray n)).head? ≠ some byteOrderMark := by
    rw [hs]
    exact fun heq => absurd (Option.some.inj heq) (by decide)
  have hcounts : (payloadDialect levels).countsEmpty = true := rfl
  have hvalue := readValue_nestedArray_of_countsEmpty hcounts h []
  rw [List.append_nil] at hvalue
  have hread : read (payloadDialect levels) (print (nestedArray n)) = .error .tooDeep := by
    refine Result.bind_eq_error_iff.2 (.inl ?_)
    rw [← hvalue, hs]
    rfl
  have hlimit : ReadFault.IsLimit .tooDeep := trivial
  exact ⟨_, decode_text_eq_ok_iff.2 ⟨hmark, rfl⟩, (read_error_iff hlimit).1 hread⟩

end EditorWire.Json
