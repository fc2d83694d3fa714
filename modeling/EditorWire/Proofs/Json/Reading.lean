/-
  EditorWire.Proofs.Json.Reading — what a reader that succeeds has done.

  One lemma for each reader says all that it can have done when it gives a
  value: what the text started with, what was read of it and what is left.  From
  these it follows for a whole run, by induction on the nesting, that a property
  the reader sees to on each level holds everywhere in what is read.

  Main results:
    * `readValue_eq_ok_iff`, `readAtom_eq_ok_iff`, `readNumeral?_eq_some_iff` — what was read.
    * `readValue_induction` — from what is inside to values, from values to every level.
    * `IsSeenTo.gives_readValue` — from one level to the whole value.
    * `everywhere_isHeld_of_load` — what is loaded binds each name once, and
      its fractions are numbers of the format.
-/
import EditorWire.Json.Payload
import EditorWire.Proofs.Bindings
import EditorWire.Proofs.Json.Series
import EditorWire.Proofs.Json.Value
import EditorWire.Proofs.Number.Rounding

namespace EditorWire.Json

variable {d : Dialect} {item : ItemReader}

/-! ## §1. Members and values. -/

/-- A member is a name, a colon and a value. -/
theorem readMember_eq_ok_iff {t r : Text} {m : Text × Json} :
    readMember d item t = .ok (m, r)
      ↔ ∃ s r' r'', t = Ascii.quote :: s ∧ readString d t s = .ok (m.1, r')
        ∧ skipBlank r' = Ascii.colon :: r'' ∧ item (skipBlank r'') = .ok (m.2, r) := by
  constructor
  · intro h
    unfold readMember at h
    split at h
    · next s =>
      obtain ⟨⟨name, r'⟩, hname, h⟩ := Result.bind_eq_ok_iff.1 h
      simp only at h
      split at h
      · next r'' hcolon =>
        obtain ⟨⟨v, rest⟩, hitem, h⟩ := Result.bind_eq_ok_iff.1 h
        obtain ⟨rfl, rfl⟩ := Prod.mk.inj (Except.ok.inj h)
        exact ⟨s, r', r'', rfl, hname, hcolon, hitem⟩
      · cases h
    · cases h
  · rintro ⟨s, r', r'', rfl, hname, hcolon, hitem⟩
    refine Result.bind_eq_ok_iff.2 ⟨(m.1, r'), hname, ?_⟩
    simp only
    rw [hcolon]
    exact Result.bind_eq_ok_iff.2 ⟨(m.2, r), hitem, rfl⟩

/-- The reader of what an array or object holds. -/
def innerReader (d : Dialect) : (nesting : Nat) → ItemReader
  | 0 => readTooDeep
  | nesting + 1 => readValue d nesting

theorem readValue_string (n : Nat) (s : Text) :
    readValue d n (Ascii.quote :: s)
      = (readString d (Ascii.quote :: s) s).map fun (t, rest) => (.string t, rest) := by
  cases n <;> rfl

/-- An array or object may begin where so many levels are left. -/
def Dialect.Opens (d : Dialect) (n : Nat) : Prop := d.countsEmpty = true → n ≠ 0

theorem Dialect.opens_succ (d : Dialect) (n : Nat) : d.Opens (n + 1) := fun _ => Nat.succ_ne_zero n

/-- Where empty ones are not counted, one may begin at any place. -/
theorem Dialect.opens_of_countsEmpty (hd : d.countsEmpty = false) (n : Nat) : d.Opens n := by
  intro h
  rw [hd] at h
  cases h

theorem Dialect.not_opens_iff {n : Nat} : ¬ d.Opens n ↔ d.countsEmpty = true ∧ n = 0 := by
  unfold Dialect.Opens
  rw [Classical.not_imp, ne_eq, not_not]

theorem readValue_array {n : Nat} (hn : d.Opens n) (s : Text) :
    readValue d n (Ascii.openBracket :: s)
      = (readArray (innerReader d n) s).map fun (items, rest) => (.array items, rest) := by
  cases n with
  | zero => exact if_neg fun h => hn h rfl
  | succ n => rfl

theorem readValue_object {n : Nat} (hn : d.Opens n) (s : Text) :
    readValue d n (Ascii.openBrace :: s)
      = (readObject d (innerReader d n) s).map
          fun (members, rest) => (objectOf d members, rest) := by
  cases n with
  | zero => exact if_neg fun h => hn h rfl
  | succ n => rfl

/-- Where none may begin, one is too deep whatever is in it. -/
theorem readValue_of_not_opens {n : Nat} (hn : ¬ d.Opens n) (s : Text) :
    readValue d n (Ascii.openBracket :: s) = .error .tooDeep
      ∧ readValue d n (Ascii.openBrace :: s) = .error .tooDeep := by
  obtain ⟨hd, rfl⟩ := Dialect.not_opens_iff.1 hn
  exact ⟨if_pos hd, if_pos hd⟩

/-- What starts like none of these is read as an atom. -/
theorem readValue_atom (n : Nat) {t : Text} (hquote : ∀ s, t ≠ Ascii.quote :: s)
    (hbracket : ∀ s, t ≠ Ascii.openBracket :: s) (hbrace : ∀ s, t ≠ Ascii.openBrace :: s) :
    readValue d n t = readAtom d t := by
  rw [readValue.eq_def]
  split
  · next s => exact absurd rfl (hquote s)
  · next s => exact absurd rfl (hbracket s)
  · next s => exact absurd rfl (hbrace s)
  · next s => exact absurd rfl (hbracket s)
  · next s => exact absurd rfl (hbrace s)
  · rfl

/-- No atom starts like a string, an array or an object. -/
theorem ne_of_readAtom {t r : Text} {v : Json} (h : readAtom d t = .ok (v, r)) (s : Text) :
    t ≠ Ascii.quote :: s ∧ t ≠ Ascii.openBracket :: s ∧ t ≠ Ascii.openBrace :: s := by
  refine ⟨?_, ?_, ?_⟩ <;>
    · rintro rfl
      cases h

/-- A value is a string, an array, an object or an atom, as its text starts. -/
theorem readValue_eq_ok_iff {n : Nat} {t r : Text} {v : Json} :
    readValue d n t = .ok (v, r)
      ↔ (∃ s x, t = Ascii.quote :: s ∧ readString d t s = .ok (x, r) ∧ v = .string x)
        ∨ (∃ s items, t = Ascii.openBracket :: s ∧ d.Opens n
          ∧ readArray (innerReader d n) s = .ok (items, r) ∧ v = .array items)
        ∨ (∃ s members, t = Ascii.openBrace :: s ∧ d.Opens n
          ∧ readObject d (innerReader d n) s = .ok (members, r) ∧ v = objectOf d members)
        ∨ readAtom d t = .ok (v, r) := by
  constructor
  · intro h
    by_cases hquote : ∃ s, t = Ascii.quote :: s
    · obtain ⟨s, rfl⟩ := hquote
      rw [readValue_string, Result.map_eq_ok_iff] at h
      obtain ⟨⟨x, r'⟩, hx, heq⟩ := h
      obtain ⟨rfl, rfl⟩ := Prod.mk.inj heq
      exact .inl ⟨s, x, rfl, hx, rfl⟩
    by_cases hbracket : ∃ s, t = Ascii.openBracket :: s
    · obtain ⟨s, rfl⟩ := hbracket
      have hn : d.Opens n := by
        by_contra hn
        rw [(readValue_of_not_opens hn s).1] at h
        cases h
      rw [readValue_array hn, Result.map_eq_ok_iff] at h
      obtain ⟨⟨items, r'⟩, hitems, heq⟩ := h
      obtain ⟨rfl, rfl⟩ := Prod.mk.inj heq
      exact .inr (.inl ⟨s, items, rfl, hn, hitems, rfl⟩)
    by_cases hbrace : ∃ s, t = Ascii.openBrace :: s
    · obtain ⟨s, rfl⟩ := hbrace
      have hn : d.Opens n := by
        by_contra hn
        rw [(readValue_of_not_opens hn s).2] at h
        cases h
      rw [readValue_object hn, Result.map_eq_ok_iff] at h
      obtain ⟨⟨members, r'⟩, hmembers, heq⟩ := h
      obtain ⟨rfl, rfl⟩ := Prod.mk.inj heq
      exact .inr (.inr (.inl ⟨s, members, rfl, hn, hmembers, rfl⟩))
    · rw [readValue_atom n (fun s hs => hquote ⟨s, hs⟩) (fun s hs => hbracket ⟨s, hs⟩)
        (fun s hs => hbrace ⟨s, hs⟩)] at h
      exact .inr (.inr (.inr h))
  · rintro (⟨s, x, rfl, hx, rfl⟩ | ⟨s, items, rfl, hn, hitems, rfl⟩ |
      ⟨s, members, rfl, hn, hmembers, rfl⟩ | hatom)
    · rw [readValue_string, hx]
      rfl
    · rw [readValue_array hn, hitems]
      rfl
    · rw [readValue_object hn, hmembers]
      rfl
    · rw [readValue_atom n (fun s => (ne_of_readAtom hatom s).1)
        (fun s => (ne_of_readAtom hatom s).2.1) (fun s => (ne_of_readAtom hatom s).2.2), hatom]

/-- What passes from the reader of what is inside to the reader of values holds on every level:
below the last one nothing is read. -/
theorem readValue_induction {q : ItemReader → Prop} (hdeep : q readTooDeep)
    (hstep : ∀ n, q (innerReader d n) → q (readValue d n)) (n : Nat) : q (readValue d n) := by
  induction n with
  | zero => exact hstep 0 hdeep
  | succ n ih => exact hstep (n + 1) ih

/-! ## §2. What every value has that is read. -/

/-- A reader gives only values everywhere in which the property holds. -/
def Gives (p : Json → Prop) (item : ItemReader) : Prop :=
  ∀ t v r, item t = .ok (v, r) → Everywhere p v

/-- A property that the reader of a dialect sees to: at strings, arrays and objects it holds
whatever is in them, and at every other value because that is read. -/
structure IsSeenTo (d : Dialect) (p : Json → Prop) : Prop where
  string : ∀ t, p (.string t)
  array : ∀ items, p (.array items)
  object : ∀ members, p (objectOf d members)
  atom : Gives p (readAtom d)

variable {p : Json → Prop}

theorem Gives.items (hitem : Gives p item) {t r : Text} {items : List Json}
    (h : readArray item t = .ok (items, r)) : ∀ v ∈ items, Everywhere p v := by
  rw [readArray_eq_readEnclosed] at h
  exact forall_of_readEnclosed (by decide) hitem h

theorem Gives.members (hitem : Gives p item) {t r : Text} {members : Members}
    (h : readObject d item t = .ok (members, r)) : ∀ m ∈ members, Everywhere p m.2 := by
  rw [readObject_eq_readEnclosed] at h
  refine forall_of_readEnclosed (by decide) (fun t m r hmember => ?_) h
  obtain ⟨-, -, r'', -, -, -, hv⟩ := readMember_eq_ok_iff.1 hmember
  exact hitem _ m.2 r hv

/-- Merging members of one name takes none from elsewhere. -/
theorem IsSeenTo.everywhere_objectOf (hp : IsSeenTo d p) {members : Members}
    (h : ∀ m ∈ members, Everywhere p m.2) : Everywhere p (objectOf d members) := by
  have hobject := hp.object members
  unfold objectOf at hobject ⊢
  rw [everywhere_object_iff]
  refine ⟨hobject, ?_⟩
  split
  · exact Bindings.forall_ofList h
  · exact h

/-- **What a reader sees to holds everywhere in what is read.** -/
theorem IsSeenTo.gives_readValue (hp : IsSeenTo d p) (n : Nat) : Gives p (readValue d n) := by
  refine readValue_induction (fun t v r h => ?_) (fun n hinner t v r h => ?_) n
  · cases h
  · rcases readValue_eq_ok_iff.1 h with ⟨s, x, -, -, rfl⟩ | ⟨s, items, -, -, hitems, rfl⟩ |
      ⟨s, members, -, -, hmembers, rfl⟩ | hatom
    · exact everywhere_atom (hp.string x) trivial
    · rw [everywhere_array_iff]
      exact ⟨hp.array items, hinner.items hitems⟩
    · exact hp.everywhere_objectOf (hinner.members hmembers)
    · exact hp.atom t v r hatom

/-! ## §3. Atoms. -/

/-- A value is read by its name: no name is the beginning of another. -/
theorem readNamed?_eq_some_iff {t r : Text} {v : Json} :
    readNamed? t = some (v, r) ↔ ∃ name, (name, v) ∈ namedValues ∧ t = name ++ r := by
  constructor
  · intro h
    unfold readNamed? at h
    obtain ⟨⟨name, value⟩, hentry, h⟩ := List.exists_of_findSome?_eq_some h
    obtain ⟨rest, hprefix, h⟩ := Option.map_eq_some_iff.1 h
    obtain ⟨rfl, rfl⟩ := Prod.mk.inj h
    exact ⟨name, hentry, (List.isPrefixOf?_eq_some_iff_append_eq.1 hprefix).symm⟩
  · rintro ⟨name, hentry, rfl⟩
    simp only [namedValues, List.mem_cons, Prod.mk.injEq, List.not_mem_nil, or_false] at hentry
    rcases hentry with ⟨rfl, rfl⟩ | ⟨rfl, rfl⟩ | ⟨rfl, rfl⟩ | ⟨rfl, rfl⟩ | ⟨rfl, rfl⟩ |
      ⟨rfl, rfl⟩ <;> rfl

/-- A number is read part by part, each leaving the next in front. -/
theorem readNumeral?_eq_some_iff {t r : Text} {n : Numeral} :
    readNumeral? t = some (n, r)
      ↔ ∃ r₁ r₂ r₃, readMinus t = (n.negative, r₁) ∧ readWhole? r₁ = some (n.whole, r₂)
        ∧ readFraction r₂ = (n.fraction, r₃) ∧ readExponent r₃ = (n.exponent, r) := by
  unfold readNumeral?
  constructor
  · intro h
    simp only at h
    split at h
    · cases h
    · next whole r₂ hwhole =>
      obtain ⟨rfl, rfl⟩ := Prod.mk.inj (Option.some.inj h)
      exact ⟨_, r₂, _, rfl, hwhole, rfl, rfl⟩
  · rintro ⟨r₁, r₂, r₃, hminus, hwhole, hfraction, hexponent⟩
    rw [hminus]
    simp only
    rw [hwhole]
    simp only
    rw [hfraction]
    simp only
    rw [hexponent]

/-- An atom is a named value or a number. -/
theorem readAtom_eq_ok_iff {t r : Text} {v : Json} :
    readAtom d t = .ok (v, r)
      ↔ readNamed? t = some (v, r)
        ∨ (readNamed? t = none ∧ ∃ n, readNumeral? t = some (n, r) ∧ n.value d = .ok v) := by
  unfold readAtom
  cases hnamed : readNamed? t with
  | some result =>
    simp
  | none =>
    cases hnumeral : readNumeral? t with
    | none => simp
    | some result =>
      obtain ⟨n, r'⟩ := result
      simp only [Result.map_eq_ok_iff, Prod.mk.injEq, reduceCtorEq, Option.some.injEq, false_or,
        true_and]
      constructor
      · rintro ⟨v', hv', rfl, rfl⟩
        exact ⟨n, ⟨rfl, rfl⟩, hv'⟩
      · rintro ⟨n', ⟨rfl, rfl⟩, hv⟩
        exact ⟨v, hv, rfl, rfl⟩

/-- What named values and written numbers have, every atom has that is read. -/
theorem gives_readAtom (hnamed : ∀ entry ∈ namedValues, Everywhere p entry.2)
    (hnumeral : ∀ t n r v, readNumeral? t = some (n, r) → n.value d = .ok v → Everywhere p v) :
    Gives p (readAtom d) := by
  intro t v r h
  rcases readAtom_eq_ok_iff.1 h with hname | ⟨-, n, hread, hv⟩
  · obtain ⟨name, hentry, -⟩ := readNamed?_eq_some_iff.1 hname
    exact hnamed (name, v) hentry
  · exact hnumeral t n r v hread hv

theorem everywhere_isHeld_of_value {n : Numeral} {v : Json} (h : n.value d = .ok v) :
    Everywhere IsHeld v := by
  unfold Numeral.value at h
  split at h
  · cases h
  split at h
  · rw [← Except.ok.inj h]
    exact everywhere_atom trivial trivial
  · rw [← Except.ok.inj h]
    exact everywhere_atom (Binary64.isCanonical_ofDecimal _ _ _) trivial

/-- The reader sees to it that what it gives can be held. -/
theorem isSeenTo_isHeld (hd : d.mergesNames = true) : IsSeenTo d IsHeld where
  string := fun _ => trivial
  array := fun _ => trivial
  object := fun members => by
    unfold objectOf
    rw [hd, if_pos rfl]
    exact Bindings.nodup_keys_ofList members
  atom := gives_readAtom (by decide) fun _ _ _ v _ hv => everywhere_isHeld_of_value hv

/-! ## §4. Whole texts. -/

/-- A text that is read is one value with blanks around it. -/
theorem read_eq_ok_iff {t : Text} {v : Json} :
    read d t = .ok v
      ↔ ∃ r, readValue d d.maxNesting (skipBlank t) = .ok (v, r) ∧ skipBlank r = [] := by
  unfold read
  rw [Result.bind_eq_ok_iff]
  constructor
  · rintro ⟨⟨v', r⟩, hread, h⟩
    simp only at h
    split at h
    · next hr =>
      obtain rfl := Except.ok.inj h
      exact ⟨r, hread, hr⟩
    · cases h
  · rintro ⟨r, hread, hr⟩
    refine ⟨(v, r), hread, ?_⟩
    simp only
    rw [hr]

theorem decode_text_eq_ok_iff {t t' : Text} :
    Payload.decode (.text t) = .ok t' ↔ t.head? ≠ some byteOrderMark ∧ t = t' := by
  rw [Payload.decode]
  split
  · next hmark =>
    constructor
    · intro h
      cases h
    · exact fun h => absurd hmark h.1
  · next hmark => exact ⟨fun h => ⟨hmark, Except.ok.inj h⟩, fun h => congrArg Except.ok h.2⟩

variable {levels : Nat}

/-- A text payload is loaded if it has no byte order mark and is read. -/
theorem load_text_eq_ok_iff {t : Text} {v : Json} :
    load (.text t) levels = .ok v
      ↔ t.head? ≠ some byteOrderMark ∧ read (payloadDialect levels) t = .ok v := by
  unfold load
  rw [Result.bind_eq_ok_iff]
  constructor
  · rintro ⟨t', ht', h⟩
    rw [Result.mapError_eq_ok_iff] at ht' h
    obtain ⟨hmark, rfl⟩ := decode_text_eq_ok_iff.1 ht'
    exact ⟨hmark, h⟩
  · rintro ⟨hmark, h⟩
    exact ⟨t, Result.mapError_eq_ok_iff.2 (decode_text_eq_ok_iff.2 ⟨hmark, rfl⟩),
      Result.mapError_eq_ok_iff.2 h⟩

/-- What is loaded was read from some text, be it that of the payload or that of its octets. -/
theorem exists_read_of_load {payload : Payload} {v : Json} (h : load payload levels = .ok v) :
    ∃ t, read (payloadDialect levels) t = .ok v := by
  unfold load at h
  obtain ⟨t, -, hread⟩ := Result.bind_eq_ok_iff.1 h
  exact ⟨t, Result.mapError_eq_ok_iff.1 hread⟩

/-- **What the reader of payloads sees to holds everywhere in what is loaded.** -/
theorem IsSeenTo.everywhere_of_load (hp : IsSeenTo (payloadDialect levels) p) {payload : Payload}
    {v : Json} (h : load payload levels = .ok v) : Everywhere p v := by
  obtain ⟨t, ht⟩ := exists_read_of_load h
  obtain ⟨r, hread, -⟩ := read_eq_ok_iff.1 ht
  exact hp.gives_readValue _ _ v r hread

/-- **What is loaded can be held.** -/
theorem everywhere_isHeld_of_load {payload : Payload} {v : Json} (h : load payload levels = .ok v) :
    Everywhere IsHeld v :=
  (isSeenTo_isHeld rfl).everywhere_of_load h

end EditorWire.Json
