/-
  EditorWire.Proofs.DocumentUri.Mapping — documents as the keys of a mapping.

  The names of an object are read as URIs, and several of them may be URIs of one
  document.  Such names are one key, in the place of the first and with the value
  of the last:

      members            =  b₁, …, bₙ                  each read as (document, text)
      keys of the map    =  documents of b₁, …, bₙ     without repetitions
      value of d         =  text of the last bᵢ of d

  A mapping is written with one name for each key, and so it is read again as it
  is.  Where a name or a value is not as it should be, everything that is wrong is
  reported, in the order of the members.

  Main results:
    * `violations_checkMembers` — what is reported of an object.
    * `ofJson_toJson` — a mapping that is written is read again.
    * `mapping_law` — objects as mappings, and payloads that are not loaded.
    * `not_mapping_law_deepObject` — an object that is nested too deep is not loaded, and
      nothing is said of its members.
-/
import EditorWire.Proofs.DocumentUri.Inbound

namespace EditorWire

open Json (HasNoSurrogate stringMembers)

/-! ## §1. What is wrong with a member. -/

namespace DocumentMap

/-- What is wrong with a name. -/
def nameViolations (name : Text) : List Violation :=
  match DocumentUri.ofUrl name with
  | .ok _ => []
  | .error failure => [⟨[.name name, .name "[key]"], .uri failure.message⟩]

/-- What is wrong with the value of a name. -/
def valueViolations (name : Text) : Json → List Violation
  | .string _ => []
  | _ => [⟨[.name name], .string⟩]

/-- What is wrong with a member, the name first. -/
def memberViolations (member : Text × Json) : List Violation :=
  nameViolations member.1 ++ valueViolations member.1 member.2

theorem violations_checkName (name : Text) :
    (((DocumentUri.check (.string name)).under (.name "[key]")).under (.name name)).violations
      = nameViolations name := by
  cases h : DocumentUri.ofUrl name with
  | ok d => simp [DocumentUri.check, nameViolations, h, Checked.under, Checked.violations]
  | error failure =>
    simp [DocumentUri.check, nameViolations, h, Checked.expected, Checked.under,
      Checked.violations, Violation.under]

theorem violations_checkText (name : Text) (v : Json) :
    ((checkText v).under (.name name)).violations = valueViolations name v := by
  cases v <;> rfl

theorem violations_checkMember (member : Text × Json) :
    (checkMember member.1 member.2).violations = memberViolations member := by
  simp only [checkMember, Checked.violations_apply, Checked.violations_map, violations_checkName,
    violations_checkText, memberViolations]

/-- **What is wrong with an object is what is wrong with its members, in order.** -/
theorem violations_checkMembers (members : Members) :
    (checkMembers members).violations = members.flatMap memberViolations := by
  induction members with
  | nil => rfl
  | cons member members ih =>
    show (((checkMember member.1 member.2).map List.cons).apply
      (checkMembers members)).violations = _
    rw [Checked.violations_apply, Checked.violations_map, violations_checkMember, ih,
      List.flatMap_cons]

/-! ## §2. Which objects are mappings. -/

variable {payload : Payload} {members : Members}

theorem exists_isBindingOf_iff {member : Text × Json} :
    (∃ binding, IsBindingOf member binding)
      ↔ (∃ d, DocumentUri.ofUrl member.1 = .ok d) ∧ ∃ t, member.2 = .string t := by
  constructor
  · intro h
    obtain ⟨binding, hd, ht⟩ := h
    exact ⟨⟨_, hd⟩, _, ht⟩
  · intro h
    obtain ⟨⟨d, hd⟩, t, ht⟩ := h
    exact ⟨(d, t), hd, ht⟩

theorem exists_ofJson_iff (hload : loadStrict payload = .valid (.object members)) :
    (∃ m, ofJson payload = .ok m)
      ↔ ∀ member ∈ members,
        (∃ d, DocumentUri.ofUrl member.1 = .ok d) ∧ ∃ t, member.2 = .string t := by
  simp only [ofJson_eq_ok_iff hload, ← exists_isBindingOf_iff]
  constructor
  · intro h member hmember
    obtain ⟨_, bindings, hbindings, -⟩ := h
    obtain ⟨binding, -, hbinding⟩ := Result.exists_right_of_forall₂ hbindings member hmember
    exact ⟨binding, hbinding⟩
  · intro h
    obtain ⟨bindings, hbindings⟩ := Result.exists_forall₂ h
    exact ⟨_, bindings, hbindings, rfl⟩

/-- The failure holds everything that is wrong with the members. -/
theorem eq_of_ofJson_eq_error (hload : loadStrict payload = .valid (.object members))
    {failure : Failure} (h : ofJson payload = .error failure) :
    failure = .invalid (members.flatMap memberViolations) := by
  unfold ofJson at h
  simp only [hload, check] at h
  have hviolations := violations_checkMembers members
  cases hcheck : checkMembers members with
  | valid bindings =>
    rw [hcheck] at h
    cases h
  | invalid vs =>
    rw [hcheck] at h hviolations
    rw [← Except.error.inj h, ← hviolations]
    rfl

/-- What is not loaded is not looked into. -/
theorem ofJson_of_not_loaded {vs : List Violation} (h : loadStrict payload = .invalid vs) :
    ofJson payload = .error (.invalid vs) := by
  unfold ofJson
  rw [h]

/-! ## §3. Written mappings. -/

/-- The members of a mapping that is written: one for each key. -/
def writtenMembers (m : DocumentMap) : Members := m.map fun b => (b.1.toUrl, .string b.2)

/-- No surrogate stands in the texts. -/
def IsFree (m : DocumentMap) : Prop := ∀ b ∈ m, HasNoSurrogate b.2

theorem loadStrict_toJson {m : DocumentMap} (hm : IsFree m) :
    loadStrict (.text (toJson m)) = .valid (.object (writtenMembers m)) := by
  have hmembers : writtenMembers m = stringMembers (m.map fun b => (b.1.toUrl, b.2)) := by
    simp [writtenMembers, stringMembers]
  show loadStrict (.text (Json.print (.object (writtenMembers m)))) = _
  rw [hmembers]
  refine loadStrict_print fun b hb => ?_
  obtain ⟨b', hb', rfl⟩ := List.mem_map.1 hb
  exact ⟨DocumentUri.hasNoSurrogate_toUrl b'.1, hm b' hb'⟩

/-- **A mapping that is written is read again**, its keys in their order. -/
theorem ofJson_toJson {m : DocumentMap} (hkeys : (Bindings.keys m).Nodup) (hm : IsFree m) :
    ofJson (.text (toJson m)) = .ok m := by
  refine (ofJson_eq_ok_iff (loadStrict_toJson hm)).2 ⟨m, ?_, Bindings.ofList_eq_self hkeys⟩
  rw [writtenMembers, List.forall₂_map_left_iff, List.forall₂_same]
  intro b _
  exact ⟨DocumentUri.ofUrl_toUrl b.1, rfl⟩

/-- No surrogate is loaded, so none is bound. -/
theorem isFree_ofList (hload : loadStrict payload = .valid (.object members))
    {bindings : List (DocumentUri × Text)} (h : List.Forall₂ IsBindingOf members bindings) :
    IsFree (Bindings.ofList bindings) := by
  refine Bindings.forall_ofList fun b hb => ?_
  obtain ⟨member, hmember, -, ht⟩ := Result.exists_left_of_forall₂ h b hb
  exact (hasNoSurrogate_of_loadStrict hload member hmember).2 b.2 ht

/-- No two keys are written alike. -/
theorem nodup_keys_writtenMembers {m : DocumentMap} (hkeys : (Bindings.keys m).Nodup) :
    (Bindings.keys (writtenMembers m)).Nodup := by
  have hnames : Bindings.keys (writtenMembers m)
      = (Bindings.keys m).map DocumentUri.toUrl := by
    simp [Bindings.keys, writtenMembers]
  rw [hnames]
  refine hkeys.map fun d e heq => ?_
  have hd := DocumentUri.ofUrl_toUrl d
  rw [heq, DocumentUri.ofUrl_toUrl e] at hd
  exact (Except.ok.inj hd).symm

/-! ## §4. The law. -/

/-- **What is bound**: each key in the place of its first binding, with the value of its last, and
so it is read again when it is written. -/
theorem exists_bindings_of_ofJson (hload : loadStrict payload = .valid (.object members))
    {m : DocumentMap} (hm : ofJson payload = .ok m) :
    ∃ bindings, List.Forall₂ IsBindingOf members bindings
      ∧ Bindings.keys m = (Bindings.keys bindings).eraseDups
      ∧ (∀ d t, (d, t) ∈ m → ∃ before after,
        bindings = before ++ (d, t) :: after ∧ d ∉ Bindings.keys after)
      ∧ ofJson (.text (toJson m)) = .ok m
      ∧ loadStrict (.text (toJson m)) = .valid (.object (writtenMembers m))
      ∧ (Bindings.keys (writtenMembers m)).Nodup := by
  obtain ⟨bindings, hbindings, rfl⟩ := (ofJson_eq_ok_iff hload).1 hm
  have hkeys := Bindings.nodup_keys_ofList bindings
  have hfree := isFree_ofList hload hbindings
  refine ⟨bindings, hbindings, Bindings.keys_ofList bindings, fun d t hmem => ?_,
    ofJson_toJson hkeys hfree, loadStrict_toJson hfree, nodup_keys_writtenMembers hkeys⟩
  exact Bindings.exists_last_of_get?_ofList (Bindings.get?_of_mem hkeys hmem)

/-- **Objects as mappings**: which ones are accepted, what is bound and how it is written, and what
is reported of the others.  What is not loaded is reported as a whole. -/
theorem mapping_law (payload : Payload) :
    (∀ members, loadStrict payload = .valid (.object members) →
      ((∃ m, ofJson payload = .ok m)
        ↔ ∀ member ∈ members,
          (∃ d, DocumentUri.ofUrl member.1 = .ok d) ∧ ∃ t, member.2 = .string t)
      ∧ (∀ m, ofJson payload = .ok m →
        ∃ bindings, List.Forall₂ IsBindingOf members bindings
          ∧ Bindings.keys m = (Bindings.keys bindings).eraseDups
          ∧ (∀ d t, (d, t) ∈ m → ∃ before after,
            bindings = before ++ (d, t) :: after ∧ d ∉ Bindings.keys after)
          ∧ ofJson (.text (toJson m)) = .ok m
          ∧ loadStrict (.text (toJson m)) = .valid (.object (writtenMembers m))
          ∧ (Bindings.keys (writtenMembers m)).Nodup)
      ∧ ∀ failure, ofJson payload = .error failure →
        failure = .invalid (members.flatMap memberViolations))
    ∧ ∀ vs, loadStrict payload = .invalid vs →
      ofJson payload = .error (.invalid vs) ∧ (vs = [⟨[], .json⟩] ∨ vs = [⟨[], .unicode⟩]) := by
  refine ⟨fun members hload => ⟨exists_ofJson_iff hload, fun m => exists_bindings_of_ofJson hload,
    fun failure => eq_of_ofJson_eq_error hload⟩, fun vs hload => ?_⟩
  exact ⟨ofJson_of_not_loaded hload, eq_of_loadStrict_eq_invalid hload⟩

/-- Two URIs of one document, and one of another between them. -/
def respelled : List (Text × Text) :=
  [("file:/C:/a", "1"), ("file:/b", "2"), ("file:/c%3A/a", "3")]

/-- The three are two keys, and stay so when they are written. -/
theorem mapping_law_respelled :
    loadStrict (.text (Json.print (.object (stringMembers respelled))))
        = .valid (.object (stringMembers respelled))
      ∧ ∃ m, ofJson (.text (Json.print (.object (stringMembers respelled)))) = .ok m
        ∧ m.map (fun b => (b.1.path, b.2))
          = ([("c:/a", "3"), ("/b", "2")] : List (Text × Text))
        ∧ ofJson (.text (toJson m)) = .ok m := by
  have hload := loadStrict_print (show ∀ b ∈ respelled, HasNoSurrogate b.1 ∧ HasNoSurrogate b.2 by
    decide)
  have hpaths : (ofJson (.text (Json.print (.object (stringMembers respelled))))).toOption.map
      (List.map fun b => (b.1.path, b.2))
      = some ([("c:/a", "3"), ("/b", "2")] : List (Text × Text)) := by decide +kernel
  obtain ⟨m, hm, hentries⟩ := Option.map_eq_some_iff.1 hpaths
  have hok := Result.toOption_eq_some_iff.1 hm
  obtain ⟨_, -, -, -, hagain, -⟩ := ((mapping_law _).1 _ hload).2.1 m hok
  exact ⟨hload, m, hok, hentries, hagain⟩

/-! ## §5. Objects that are nested too deep. -/

/-- What has no colon has no scheme, and is no URI. -/
theorem exists_error_of_not_mem_colon {raw : Text} (h : Ascii.colon ∉ raw) :
    ∃ failure, DocumentUri.ofUrl raw = .error failure := by
  rw [Result.exists_error_iff]
  intro hok
  obtain ⟨d, hd⟩ := hok
  obtain ⟨p, hnames, -⟩ := DocumentUri.ofUrl_eq_ok_iff.1 hd
  cases hnames
  exact h (by simp)

/-- A name that is no URI, and a value that is no string. -/
def deepMember : Text × Json := ("x", .nestedArray 299)

/-- Nothing is said of the members of an object that is not loaded, though both the name and the
value of this one are wrong: the law does not hold of every object. -/
theorem not_mapping_law_deepObject :
    ofJson (.text (Json.print (.object [deepMember]))) = .error (.invalid [⟨[], .json⟩])
      ∧ (∃ reason, memberViolations deepMember
        = [⟨[.name "x", .name "[key]"], .uri reason⟩, ⟨[.name "x"], .string⟩])
      ∧ ¬ ∀ members, (Bindings.keys members).Nodup →
        HasNoSurrogate (Json.print (.object members)) →
        ∀ failure, ofJson (.text (Json.print (.object members))) = .error failure →
          failure = .invalid (members.flatMap memberViolations) := by
  have hfree : HasNoSurrogate (Text.ofString "x") := by decide
  have hload : loadStrict (.text (Json.print (.object [deepMember]))) = .expected .json :=
    loadStrict_nestedArray hfree (by decide)
  have hjson : ofJson (.text (Json.print (.object [deepMember])))
      = .error (.invalid [⟨[], .json⟩]) := ofJson_of_not_loaded hload
  obtain ⟨failure, hfailure⟩ := exists_error_of_not_mem_colon
    (show Ascii.colon ∉ Text.ofString "x" by decide)
  have hmember : memberViolations deepMember
      = [⟨[.name "x", .name "[key]"], .uri failure.message⟩, ⟨[.name "x"], .string⟩] := by
    have hvalue : ∀ n, valueViolations "x" (.nestedArray n) = [⟨[.name "x"], .string⟩] := by
      intro n
      cases n <;> rfl
    unfold memberViolations nameViolations deepMember
    rw [hfailure, hvalue]
    rfl
  refine ⟨hjson, ⟨_, hmember⟩, fun hlaw => ?_⟩
  have heq := hlaw [deepMember] (List.nodup_singleton _)
    (Json.hasNoSurrogate_nestedObject hfree 299) _ hjson
  rw [List.flatMap_singleton, hmember] at heq
  cases heq

end DocumentMap

end EditorWire
