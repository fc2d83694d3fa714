/-
  EditorWire.Proofs.Json.ReadBack — values that are written read back.

  The printed text of a value, in front of a delimiter, is read exactly if the
  value is readable, and then as that value.  A series passes this on, be it of
  items or of members, whatever reads and writes one of them:

      ReadsBack one write a (fits a)  for every a
        →   the series of all  a  reads back exactly if all fit

  Main result:
    * `load_print` — a payload that is the text of a value is loaded exactly if the
      value is readable, and then as the value.
-/
import EditorWire.Proofs.Json.Numeral
import EditorWire.Proofs.Json.Readable
import EditorWire.Proofs.Json.Reading
import EditorWire.Proofs.Json.Strings

namespace EditorWire.Json

/-- What is written for `a` is read if `a` fits, and then as `a`. -/
def ReadsBack {α : Type} (one : Text → Except ReadFault (α × Text)) (write : α → Text) (a : α)
    (fits : Prop) : Prop :=
  ∀ rest, Delimited rest → ∀ result,
    one (write a ++ rest) = .ok result ↔ fits ∧ result = (a, rest)

/-! ## §1. What a printed value starts with. -/

/-- No blank, no mark of an encoding, and not the end of an array or object. -/
def beginsValue (c : Nat) : Bool :=
  !isBlank c && decide (c < 0x80) && c != Ascii.closeBracket && c != Ascii.closeBrace

/-- Such, and not the beginning of a string, an array or an object. -/
def beginsAtom (c : Nat) : Bool :=
  beginsValue c && c != Ascii.quote && c != Ascii.openBracket && c != Ascii.openBrace

theorem beginsValue_iff {c : Nat} :
    beginsValue c = true
      ↔ isBlank c = false ∧ c < 0x80 ∧ c ≠ Ascii.closeBracket ∧ c ≠ Ascii.closeBrace := by
  simp [beginsValue, and_assoc]

theorem beginsAtom_iff {c : Nat} :
    beginsAtom c = true
      ↔ beginsValue c = true ∧ c ≠ Ascii.quote ∧ c ≠ Ascii.openBracket ∧ c ≠ Ascii.openBrace := by
  simp [beginsAtom, and_assoc]

/-- A digit begins a number. -/
theorem beginsAtom_of_isDigit {c : Nat} (h : CodePoint.isDigit c = true) :
    beginsAtom c = true := by
  have hbetween := Decimal.isDigit_between h
  rw [beginsAtom_iff, beginsValue_iff]
  refine ⟨⟨?_, ?_, ?_, ?_⟩, ?_, ?_, ?_⟩
  · unfold isBlank
    simp only [Bool.or_eq_false_iff, beq_eq_false_iff_ne]
    omega
  · omega
  · show c ≠ 0x5D; omega
  · show c ≠ 0x7D; omega
  · show c ≠ 0x22; omega
  · show c ≠ 0x5B; omega
  · show c ≠ 0x7B; omega

/-- A value may start so. -/
def StartsValue (t : Text) : Prop := ∃ c r, t = c :: r ∧ beginsValue c = true

/-- A value may start so that is neither a string nor an array nor an object. -/
def StartsAtom (t : Text) : Prop := ∃ c r, t = c :: r ∧ beginsAtom c = true

theorem StartsAtom.startsValue {t : Text} (h : StartsAtom t) : StartsValue t := by
  obtain ⟨c, r, rfl, hc⟩ := h
  exact ⟨c, r, rfl, (beginsAtom_iff.1 hc).1⟩

theorem StartsValue.append {t : Text} (h : StartsValue t) (rest : Text) :
    StartsValue (t ++ rest) := by
  obtain ⟨c, r, rfl, hc⟩ := h
  exact ⟨c, r ++ rest, rfl, hc⟩

theorem StartsAtom.append {t : Text} (h : StartsAtom t) (rest : Text) :
    StartsAtom (t ++ rest) := by
  obtain ⟨c, r, rfl, hc⟩ := h
  exact ⟨c, r ++ rest, rfl, hc⟩

theorem skipBlank_cons {c : Nat} (r : Text) (h : isBlank c = false) :
    skipBlank (c :: r) = c :: r := by
  unfold skipBlank
  rw [List.dropWhile_cons, h]
  rfl

theorem StartsValue.skipBlank_eq {t : Text} (h : StartsValue t) : skipBlank t = t := by
  obtain ⟨c, r, rfl, hc⟩ := h
  exact skipBlank_cons r (beginsValue_iff.1 hc).1

theorem Written.IsProper.startsAtom {w : Written} (h : w.IsProper) : StartsAtom w.text := by
  obtain ⟨c, r, heq, hc⟩ := h.exists_whole_eq
  unfold Written.text
  rw [heq]
  cases w.negative with
  | true => exact ⟨Ascii.hyphen, _, rfl, rfl⟩
  | false => exact ⟨c, _, rfl, beginsAtom_of_isDigit hc⟩

theorem startsAtom_int (i : Int) : StartsAtom (print (.int i)) := by
  rw [print, ← Written.text_ofInt]
  exact (Written.isProper_ofInt i).startsAtom

theorem startsAtom_float {x : Binary64} (hx : x.IsCanonical) : StartsAtom (print (.float x)) := by
  rw [print]
  cases x with
  | nan => exact ⟨_, _, rfl, rfl⟩
  | infinity negative =>
    cases negative <;> exact ⟨_, _, rfl, rfl⟩
  | finite negative m q =>
    obtain ⟨w, hproper, htext, -⟩ := exists_written_value floatStyle hx
    rw [← htext]
    exact hproper.startsAtom

theorem startsValue_print {v : Json} (hv : Everywhere IsHeld v) : StartsValue (print v) := by
  cases v with
  | null => exact ⟨_, _, rfl, rfl⟩
  | bool b =>
    cases b <;> exact ⟨_, _, rfl, rfl⟩
  | int i => exact (startsAtom_int i).startsValue
  | float x => exact (startsAtom_float hv.here).startsValue
  | string t => exact ⟨_, _, by rw [print, printString], rfl⟩
  | array items => exact ⟨_, _, by rw [print], rfl⟩
  | object members => exact ⟨_, _, by rw [print], rfl⟩

/-! ## §2. Series. -/

/-- The texts of several things with commas between them, and what follows. -/
theorem joinWith_comma_append (t t' : Text) (ts : List Text) (rest : Text) :
    Text.joinWith [Ascii.comma] (t :: t' :: ts) ++ rest
      = t ++ Ascii.comma :: (Text.joinWith [Ascii.comma] (t' :: ts) ++ rest) := by
  rw [Text.joinWith, List.append_assoc, List.append_assoc]
  · rfl
  · exact List.cons_ne_nil t' ts

theorem StartsValue.joinWith {t : Text} (h : StartsValue t) (ts : List Text) (rest : Text) :
    StartsValue (Text.joinWith [Ascii.comma] (t :: ts) ++ rest) := by
  cases ts with
  | nil => exact h.append rest
  | cons t' ts =>
    rw [joinWith_comma_append]
    exact h.append _

/-- There are no more texts than code points in them and between them. -/
theorem length_le_length_joinWith (ts : List Text) :
    ts.length ≤ (Text.joinWith [Ascii.comma] ts).length + 1 := by
  induction ts with
  | nil => exact Nat.zero_le _
  | cons t ts ih =>
    cases ts with
    | nil => exact Nat.succ_le_succ (Nat.zero_le _)
    | cons t' ts =>
      have hjoin := joinWith_comma_append t t' ts []
      rw [List.append_nil, List.append_nil] at hjoin
      rw [hjoin]
      simp only [List.length_append, List.length_cons] at ih ⊢
      omega

/-- What ends an array or an object. -/
def Closes (close : Nat) : Prop := close = Ascii.closeBracket ∨ close = Ascii.closeBrace

section Series

variable {α : Type} {close : Nat} {missing : Reason} {one : Text → Except ReadFault (α × Text)}
  {write : α → Text} {fits : α → Prop}

theorem Closes.ne_comma (h : Closes close) : close ≠ Ascii.comma := by
  rcases h with rfl | rfl <;> decide

theorem Closes.delimited (h : Closes close) (rest : Text) : Delimited (close :: rest) := by
  rcases h with rfl | rfl
  · exact delimited_closeBracket rest
  · exact delimited_closeBrace rest

theorem Closes.skipBlank_eq (h : Closes close) (rest : Text) :
    skipBlank (close :: rest) = close :: rest := by
  rcases h with rfl | rfl <;> rfl

theorem StartsValue.head_ne {t : Text} (h : StartsValue t) (hclose : Closes close) :
    t.head? ≠ some close := by
  obtain ⟨c, r, rfl, hc⟩ := h
  obtain ⟨-, -, hbracket, hbrace⟩ := beginsValue_iff.1 hc
  rw [List.head?_cons, Ne, Option.some.injEq]
  rcases hclose with rfl | rfl
  · exact hbracket
  · exact hbrace

/-- What reads back one by one does so in a row, if there are rounds enough. -/
theorem readSeries_write (hclose : Closes close) {a : α} {as read : List α} {rest r : Text}
    {rounds : Nat} (hrounds : as.length < rounds)
    (hback : ∀ b ∈ a :: as, ReadsBack one write b (fits b))
    (hstarts : ∀ b ∈ a :: as, StartsValue (write b)) :
    readSeries close missing one rounds
        (Text.joinWith [Ascii.comma] ((a :: as).map write) ++ close :: rest) = .ok (read, r)
      ↔ (∀ b ∈ a :: as, fits b) ∧ read = a :: as ∧ r = rest := by
  induction as generalizing a rounds read with
  | nil =>
    -- the last one stands in front of the closing mark
    have ha := hback a List.mem_cons_self (close :: rest) (hclose.delimited rest)
    have hskip := hclose.skipBlank_eq rest
    rw [List.forall_mem_singleton, readSeries_eq_ok_iff hclose.ne_comma]
    constructor
    · rintro ⟨a', r', k, -, hone, hnext⟩
      obtain ⟨hfits, hread⟩ := (ha _).1 hone
      obtain ⟨rfl, rfl⟩ := Prod.mk.inj hread
      rw [hskip] at hnext
      rcases hnext with ⟨hr, hread⟩ | ⟨s, bs, hs, -, -⟩
      · exact ⟨hfits, hread, (List.cons.inj hr).2.symm⟩
      · exact absurd (List.cons.inj hs).1 hclose.ne_comma
    · rintro ⟨hfits, rfl, rfl⟩
      exact ⟨a, _, rounds - 1, by omega, (ha _).2 ⟨hfits, rfl⟩, .inl ⟨hskip, rfl⟩⟩
  | cons b as ih =>
    -- a comma follows, and the others are read in the rounds that are left
    obtain ⟨k, rfl⟩ : ∃ k, rounds = k + 1 := ⟨rounds - 1, by omega⟩
    have ha := fun s => hback a List.mem_cons_self (Ascii.comma :: s) (delimited_comma s)
    have hmore : ∀ bs, readSeries close missing one k
          (Text.joinWith [Ascii.comma] ((b :: as).map write) ++ close :: rest) = .ok (bs, r)
        ↔ (∀ x ∈ b :: as, fits x) ∧ bs = b :: as ∧ r = rest :=
      fun bs => ih (Nat.lt_of_succ_lt_succ hrounds)
        (fun x hx => hback x (List.mem_cons_of_mem _ hx))
        (fun x hx => hstarts x (List.mem_cons_of_mem _ hx))
    have hjoined := (hstarts b (List.mem_cons_of_mem _ List.mem_cons_self)).joinWith
      (as.map write) (close :: rest)
    have hskip := fun s => skipBlank_cons s (show isBlank Ascii.comma = false from rfl)
    rw [List.map_cons, List.map_cons, joinWith_comma_append, List.forall_mem_cons,
      readSeries_eq_ok_iff hclose.ne_comma]
    constructor
    · rintro ⟨a', r', k', hk, hone, hnext⟩
      obtain rfl := Nat.succ.inj hk
      obtain ⟨hfits, hread⟩ := (ha _ _).1 hone
      obtain ⟨rfl, rfl⟩ := Prod.mk.inj hread
      rw [hskip] at hnext
      rcases hnext with ⟨hr, -⟩ | ⟨s, bs, hs, hbs, rfl⟩
      · exact absurd (List.cons.inj hr).1.symm hclose.ne_comma
      · obtain ⟨-, rfl⟩ := List.cons.inj hs
        rw [hjoined.skipBlank_eq] at hbs
        obtain ⟨hall, rfl, rfl⟩ := (hmore bs).1 hbs
        exact ⟨⟨hfits, hall⟩, rfl, rfl⟩
    · rintro ⟨⟨hfits, hall⟩, rfl, rfl⟩
      refine ⟨a, _, k, rfl, (ha _ _).2 ⟨hfits, rfl⟩, .inr ⟨_, b :: as, hskip _, ?_, rfl⟩⟩
      rw [hjoined.skipBlank_eq]
      exact (hmore _).2 ⟨hall, rfl, rfl⟩

/-- So it does behind an opening mark, where there are rounds enough. -/
theorem readEnclosed_write (hclose : Closes close) {as read : List α} {rest r : Text}
    (hback : ∀ b ∈ as, ReadsBack one write b (fits b))
    (hstarts : ∀ b ∈ as, StartsValue (write b)) :
    readEnclosed close missing one
        (Text.joinWith [Ascii.comma] (as.map write) ++ close :: rest) = .ok (read, r)
      ↔ (∀ b ∈ as, fits b) ∧ read = as ∧ r = rest := by
  rw [readEnclosed_eq_ok_iff]
  cases as with
  | nil =>
    show (skipBlank (close :: rest) = _ ∧ _) ∨ ((skipBlank (close :: rest)).head? ≠ _ ∧ _) ↔ _
    rw [hclose.skipBlank_eq]
    constructor
    · rintro (⟨hr, hread⟩ | ⟨hne, -⟩)
      · exact ⟨fun b hb => absurd hb List.not_mem_nil, hread, (List.cons.inj hr).2.symm⟩
      · exact absurd rfl hne
    · rintro ⟨-, rfl, rfl⟩
      exact .inl ⟨rfl, rfl⟩
  | cons a as =>
    have hjoined : StartsValue
        (Text.joinWith [Ascii.comma] ((a :: as).map write) ++ close :: rest) :=
      (hstarts a List.mem_cons_self).joinWith _ _
    -- the reader allows as many rounds as there are code points
    have hrounds : as.length
        < (Text.joinWith [Ascii.comma] ((a :: as).map write) ++ close :: rest).length + 1 := by
      have hlength := length_le_length_joinWith ((a :: as).map write)
      rw [List.length_map, List.length_cons] at hlength
      rw [List.length_append]
      omega
    rw [hjoined.skipBlank_eq, readSeries_write hclose hrounds hback hstarts]
    constructor
    · rintro (⟨hend, -⟩ | ⟨-, h⟩)
      · exact absurd (by rw [hend, List.head?_cons]) (hjoined.head_ne hclose)
      · exact h
    · exact fun h => .inr ⟨hjoined.head_ne hclose, h⟩

end Series

/-! ## §3. Members. -/

/-- The text of a member. -/
def printMember (m : Text × Json) : Text := printString m.1 ++ Ascii.colon :: print m.2

/-- The text of a member starts with a quote. -/
theorem startsValue_printMember (m : Text × Json) : StartsValue (printMember m) :=
  ⟨Ascii.quote, _, rfl, rfl⟩

/-- A member reads back if its value does. -/
theorem readsBack_readMember {d : Dialect} (hd : d.loneSurrogates = true) {item : ItemReader}
    {fits : Prop} {m : Text × Json} (hback : ReadsBack item print m.2 fits)
    (hstarts : StartsValue (print m.2)) : ReadsBack (readMember d item) printMember m fits := by
  intro rest hrest result
  have htext : printMember m ++ rest
      = Ascii.quote :: (m.1.flatMap escapePoint
          ++ Ascii.quote :: (Ascii.colon :: (print m.2 ++ rest))) := by
    unfold printMember printString
    simp only [List.append_assoc, List.cons_append, List.nil_append]
  have hcolon := skipBlank_cons (print m.2 ++ rest) (show isBlank Ascii.colon = false from rfl)
  obtain ⟨read, r⟩ := result
  rw [htext, readMember_eq_ok_iff]
  constructor
  · rintro ⟨s, r', r'', ht, hname, hr', hitem⟩
    obtain ⟨-, rfl⟩ := List.cons.inj ht
    rw [readString_print hd] at hname
    obtain ⟨hfirst, rfl⟩ := Prod.mk.inj (Except.ok.inj hname)
    rw [hcolon] at hr'
    obtain ⟨-, rfl⟩ := List.cons.inj hr'
    rw [(hstarts.append rest).skipBlank_eq] at hitem
    obtain ⟨hfits, hread⟩ := (hback rest hrest _).1 hitem
    obtain ⟨hsecond, rfl⟩ := Prod.mk.inj hread
    exact ⟨hfits, congrArg (fun m => (m, r)) (Prod.ext hfirst.symm hsecond)⟩
  · rintro ⟨hfits, heq⟩
    obtain ⟨rfl, rfl⟩ := Prod.mk.inj heq
    refine ⟨_, _, _, rfl, readString_print hd _ _ _, hcolon, ?_⟩
    rw [(hstarts.append r).skipBlank_eq]
    exact (hback r hrest _).2 ⟨hfits, rfl⟩

/-! ## §4. Values. -/

variable {levels : Nat}

/-- A value that starts like an atom reads back as the reader of atoms has it. -/
theorem readsBack_of_startsAtom {v : Json} {fits : Prop} (n : Nat) (hstarts : StartsAtom (print v))
    (h : ReadsBack (readAtom (payloadDialect levels)) print v fits) :
    ReadsBack (readValue (payloadDialect levels) n) print v fits := by
  intro rest hrest result
  obtain ⟨c, r, heq, hc⟩ := hstarts.append rest
  obtain ⟨-, hquote, hbracket, hbrace⟩ := beginsAtom_iff.1 hc
  have hne : ∀ x, c ≠ x → ∀ s, print v ++ rest ≠ x :: s := by
    intro x hx s hs
    rw [heq] at hs
    exact hx (List.cons.inj hs).1
  rw [readValue_atom n (hne _ hquote) (hne _ hbracket) (hne _ hbrace)]
  exact h rest hrest result

/-- What is read for certain is read as it is. -/
theorem ReadsBack.of_eq_ok {item : ItemReader} {v : Json}
    (h : ∀ rest, Delimited rest → item (print v ++ rest) = .ok (v, rest)) {fits : Prop}
    (hfits : fits) : ReadsBack item print v fits := by
  intro rest hrest result
  rw [h rest hrest]
  constructor
  · exact fun heq => ⟨hfits, (Except.ok.inj heq).symm⟩
  · exact fun heq => congrArg Except.ok heq.2.symm

/-- With one level more the items are read with what there was before. -/
theorem readsBack_array {items : List Json} (hstarts : ∀ v ∈ items, StartsValue (print v))
    (h : ∀ v ∈ items, ∀ n, ReadsBack (readValue (payloadDialect levels) n) print v (IsReadable n v))
    (n : Nat) :
    ReadsBack (readValue (payloadDialect levels) n) print (.array items)
      (IsReadable n (.array items)) := by
  intro rest hrest result
  rw [print, printItems_eq_map, List.cons_append, List.append_assoc, List.singleton_append,
    isReadable_array_iff]
  cases n with
  | zero =>
    -- no level is left for the array itself
    constructor
    · intro hread
      cases hread
    · rintro ⟨⟨k, hk, -⟩, -⟩
      cases hk
  | succ n =>
    have hitems : ∀ read r, readArray (readValue (payloadDialect levels) n)
          (Text.joinWith [Ascii.comma] (items.map print) ++ Ascii.closeBracket :: rest)
            = .ok (read, r)
        ↔ (∀ v ∈ items, IsReadable n v) ∧ read = items ∧ r = rest := by
      intro read r
      rw [readArray_eq_readEnclosed]
      exact readEnclosed_write (.inl rfl) (fun v hv => h v hv n) hstarts
    rw [readValue_array (Dialect.opens_succ _ n), Result.map_eq_ok_iff]
    constructor
    · rintro ⟨⟨read, r⟩, hread, rfl⟩
      obtain ⟨hall, rfl, rfl⟩ := (hitems read r).1 hread
      exact ⟨⟨n, rfl, hall⟩, rfl⟩
    · rintro ⟨⟨k, hk, hall⟩, rfl⟩
      obtain rfl := Nat.succ.inj hk
      exact ⟨(items, rest), (hitems _ _).2 ⟨hall, rfl, rfl⟩, rfl⟩

theorem readsBack_object {members : Members} (hkeys : (Bindings.keys members).Nodup)
    (hstarts : ∀ m ∈ members, StartsValue (print m.2))
    (h : ∀ m ∈ members, ∀ n,
      ReadsBack (readValue (payloadDialect levels) n) print m.2 (IsReadable n m.2))
    (n : Nat) :
    ReadsBack (readValue (payloadDialect levels) n) print (.object members)
      (IsReadable n (.object members)) := by
  intro rest hrest result
  -- no name is repeated, so making the object merges nothing
  have hobject : objectOf (payloadDialect levels) members = .object members := by
    show Json.object (Bindings.ofList members) = .object members
    rw [Bindings.ofList_eq_self hkeys]
  rw [print, printMembers_eq_map, List.cons_append, List.append_assoc, List.singleton_append,
    isReadable_object_iff]
  cases n with
  | zero =>
    constructor
    · intro hread
      cases hread
    · rintro ⟨⟨k, hk, -⟩, -⟩
      cases hk
  | succ n =>
    have hmembers : ∀ read r, readObject (payloadDialect levels)
          (readValue (payloadDialect levels) n)
          (Text.joinWith [Ascii.comma] (members.map printMember) ++ Ascii.closeBrace :: rest)
            = .ok (read, r)
        ↔ (∀ m ∈ members, IsReadable n m.2) ∧ read = members ∧ r = rest := by
      intro read r
      rw [readObject_eq_readEnclosed]
      exact readEnclosed_write (.inr rfl)
        (fun m hm => readsBack_readMember rfl (h m hm n) (hstarts m hm))
        (fun m _ => startsValue_printMember m)
    rw [readValue_object (Dialect.opens_succ _ n), Result.map_eq_ok_iff]
    constructor
    · rintro ⟨⟨read, r⟩, hread, rfl⟩
      obtain ⟨hall, rfl, rfl⟩ := (hmembers read r).1 hread
      exact ⟨⟨n, rfl, hall⟩, congrArg (fun v => (v, r)) hobject⟩
    · rintro ⟨⟨k, hk, hall⟩, rfl⟩
      obtain rfl := Nat.succ.inj hk
      exact ⟨(members, rest), (hmembers _ _).2 ⟨hall, rfl, rfl⟩,
        congrArg (fun v => (v, rest)) hobject⟩

/-- A value that holds nothing is readable at any level, if it is no long integer. -/
theorem isReadable_of_isAtom (n : Nat) {v : Json} (hatom : IsAtom v) (hshort : IsShort v) :
    IsReadable n v := by
  refine ⟨everywhere_atom hshort hatom, ?_⟩
  cases v with
  | array items => exact hatom.elim
  | object members => exact hatom.elim
  | _ => exact Nat.zero_le n

/-- **The text of a value is read exactly if the value is readable, and then as the value.** -/
theorem readsBack_readValue {v : Json} (hv : Everywhere IsHeld v) (n : Nat) :
    ReadsBack (readValue (payloadDialect levels) n) print v (IsReadable n v) := by
  induction v using Json.induction generalizing n with
  | null =>
    have hreadable : IsReadable n .null := isReadable_of_isAtom n (by trivial) (by trivial)
    exact readsBack_of_startsAtom n ⟨_, _, rfl, rfl⟩ (.of_eq_ok (fun rest _ => rfl) hreadable)
  | bool b =>
    have hreadable : IsReadable n (.bool b) := isReadable_of_isAtom n (by trivial) (by trivial)
    cases b <;>
      exact readsBack_of_startsAtom n ⟨_, _, rfl, rfl⟩ (.of_eq_ok (fun rest _ => rfl) hreadable)
  | int i =>
    refine readsBack_of_startsAtom n (startsAtom_int i) fun rest hrest result => ?_
    rw [print, readAtom_ofInt hrest]
    constructor
    · rintro ⟨hshort, rfl⟩
      exact ⟨isReadable_of_isAtom n (by trivial) hshort, rfl⟩
    · rintro ⟨hreadable, rfl⟩
      exact ⟨hreadable.short.here, rfl⟩
  | float x =>
    refine readsBack_of_startsAtom n (startsAtom_float hv.here) ?_
    refine .of_eq_ok (fun rest hrest => ?_) (isReadable_of_isAtom n (by trivial) (by trivial))
    rw [print, readAtom_write hv.here hrest]
  | string t =>
    refine .of_eq_ok (fun rest _ => ?_) (isReadable_of_isAtom n (by trivial) (by trivial))
    rw [print, printString, List.cons_append, List.append_assoc, readValue_string,
      List.singleton_append, readString_print rfl]
    rfl
  | array items ih =>
    rw [everywhere_array_iff] at hv
    exact readsBack_array (fun v hmem => startsValue_print (hv.2 v hmem))
      (fun v hmem => ih v hmem (hv.2 v hmem)) n
  | object members ih =>
    rw [everywhere_object_iff] at hv
    exact readsBack_object hv.1 (fun m hmem => startsValue_print (hv.2 m hmem))
      (fun m hmem => ih m hmem (hv.2 m hmem)) n

/-- **The text of a value is loaded exactly if the value is readable, and then as the value.** -/
theorem load_print {v w : Json} (hv : Everywhere IsHeld v) :
    load (.text (print v)) levels = .ok w ↔ IsReadable levels v ∧ w = v := by
  have hread : ∀ r, readValue (payloadDialect levels) levels (print v) = .ok (w, r)
      ↔ IsReadable levels v ∧ (w, r) = (v, []) := by
    intro r
    have hback : readValue (payloadDialect levels) levels (print v ++ []) = .ok (w, r) ↔ _ :=
      readsBack_readValue hv levels [] delimited_nil (w, r)
    rw [List.append_nil] at hback
    exact hback
  -- what is printed starts below U+0080, the mark does not
  have hmark : (print v).head? ≠ some byteOrderMark := by
    obtain ⟨c, r, heq, hc⟩ := startsValue_print hv
    rw [heq]
    intro hhead
    rw [Option.some.inj hhead] at hc
    exact absurd hc (by decide)
  rw [load_text_eq_ok_iff, read_eq_ok_iff, (startsValue_print hv).skipBlank_eq]
  constructor
  · rintro ⟨-, r, hr, -⟩
    obtain ⟨hreadable, heq⟩ := (hread r).1 hr
    exact ⟨hreadable, (Prod.mk.inj heq).1⟩
  · rintro ⟨hreadable, rfl⟩
    exact ⟨hmark, [], (hread []).2 ⟨hreadable, rfl⟩, rfl⟩

/-- A value that is loaded is known by its text. -/
theorem load_eq_of_print {payload : Payload} {v : Json} (hv : load (.text (print v)) levels = .ok v)
    (h : (load payload levels).toOption.map print = some (print v)) :
    load payload levels = .ok v := by
  obtain ⟨w, hw, hprint⟩ := Option.map_eq_some_iff.1 h
  rw [Result.toOption_eq_some_iff] at hw
  rw [← hprint, load_print (everywhere_isHeld_of_load hw)] at hv
  rw [hw, hv.2]

end EditorWire.Json
