/-
  EditorWire.Proofs.DocumentUri.Strict — what strict payloads load.

  A strict payload that is loaded was read in the strict dialect, and so no
  surrogate stands in the names and the strings of its object.  In the other
  direction an object of strings is loaded from any of its texts, if there are no
  surrogates in it: each name and each string is a literal of its own.

  Main results:
    * `hasNoSurrogate_of_loadStrict` — what stands in an object that is loaded.
    * `loadStrict_objectText` — an object of strings is loaded from its literals.
    * `loadStrict_print` — an object of strings that is written is loaded again.
    * `loadStrict_nestedArray` — what is nested too deep is not loaded.
-/
import EditorWire.DocumentUri.Wire
import EditorWire.Proofs.Json.Literal

namespace EditorWire

open Json (IsLiteral HasNoSurrogate memberText objectText stringMembers)

/-! ## §1. From the payload to what is read. -/

/-- A payload is read, be it from a text or from its octets, or it has no text to be read. -/
theorem loadStrict_cases (payload : Payload) :
    (∃ t, loadStrict payload = loadStrict.readStrict t)
      ∨ loadStrict payload = .expected .unicode ∨ loadStrict payload = .expected .json := by
  unfold loadStrict
  split
  · next t =>
    split
    · exact .inr (.inl rfl)
    · exact .inl ⟨t, rfl⟩
  · split
    · next t _ => exact .inl ⟨t, rfl⟩
    · exact .inr (.inr rfl)

/-- What is loaded was read. -/
theorem exists_read_of_loadStrict {payload : Payload} {v : Json}
    (h : loadStrict payload = .valid v) : ∃ t, Json.read strictDialect t = .ok v := by
  rcases loadStrict_cases payload with ⟨t, ht⟩ | ht | ht
  · rw [ht] at h
    unfold loadStrict.readStrict at h
    split at h
    · next v' hv' => exact ⟨t, by rw [hv', Checked.valid.inj h]⟩
    · cases h
  · rw [ht] at h
    cases h
  · rw [ht] at h
    cases h

/-- What is not loaded is no JSON, or has surrogates in it. -/
theorem eq_of_loadStrict_eq_invalid {payload : Payload} {vs : List Violation}
    (h : loadStrict payload = .invalid vs) : vs = [⟨[], .json⟩] ∨ vs = [⟨[], .unicode⟩] := by
  rcases loadStrict_cases payload with ⟨t, ht⟩ | ht | ht
  · rw [ht] at h
    unfold loadStrict.readStrict at h
    split at h
    · cases h
    · exact .inl (Checked.invalid.inj h).symm
  · exact .inr (Checked.invalid.inj (h.symm.trans ht))
  · exact .inl (Checked.invalid.inj (h.symm.trans ht))

/-- A text without surrogates is loaded as it is read. -/
theorem loadStrict_text {t : Text} (ht : HasNoSurrogate t) :
    loadStrict (.text t)
      = match Json.read strictDialect t with
        | .ok v => .valid v
        | .error _ => .expected .json := by
  have hnone : (t.any fun c => decide (IsSurrogate c)) = false := by
    simpa [HasNoSurrogate] using ht
  unfold loadStrict
  simp only [hnone, loadStrict.readStrict]
  rfl

/-! ## §2. What stands in an object. -/

/-- **No surrogate stands in the names and the strings of an object that is loaded.** -/
theorem hasNoSurrogate_of_loadStrict {payload : Payload} {members : Members}
    (h : loadStrict payload = .valid (.object members)) :
    ∀ m ∈ members, HasNoSurrogate m.1 ∧ ∀ s, m.2 = .string s → HasNoSurrogate s := by
  obtain ⟨t, hread⟩ := exists_read_of_loadStrict h
  obtain ⟨r, hvalue, -⟩ := Json.read_eq_ok_iff.1 hread
  rcases Json.readValue_eq_ok_iff.1 hvalue with ⟨_, _, -, -, heq⟩ |
    ⟨_, _, -, -, -, heq⟩ | ⟨body, read, -, -, hobject, heq⟩ | hatom
  · cases heq
  · cases heq
  · obtain rfl : members = read := Json.object.inj heq
    rw [Json.readObject_eq_readEnclosed] at hobject
    refine Json.forall_of_readEnclosed (by decide) (fun t m r hmember => ?_) hobject
    obtain ⟨_, _, r', -, hname, -, hv⟩ := Json.readMember_eq_ok_iff.1 hmember
    obtain ⟨-, -, -, hadmits⟩ := Json.readString_eq_ok_iff.1 hname
    refine ⟨(Json.admits_iff_hasNoSurrogate rfl).1 hadmits, fun s hs => ?_⟩
    rw [hs] at hv
    exact (Json.admits_iff_hasNoSurrogate rfl).1 (Json.admits_of_readValue (n := 199) hv)
  · exact absurd rfl ((Json.ne_of_readAtom_eq_ok hatom).2 members)

/-! ## §3. Objects of strings. -/

theorem opens_strictDialect (n : Nat) : strictDialect.Opens n :=
  Json.Dialect.opens_of_countsEmpty rfl n

/-- The texts of a member are literals of its name and its string, which have no surrogates. -/
structure IsMemberOf (literals member : Text × Text) : Prop where
  name : IsLiteral literals.1 member.1
  value : IsLiteral literals.2 member.2
  nameIsFree : HasNoSurrogate member.1
  valueIsFree : HasNoSurrogate member.2

/-- **An object of strings is loaded from the literals of its members.** -/
theorem loadStrict_objectText {literals members : List (Text × Text)}
    (h : List.Forall₂ IsMemberOf literals members) :
    loadStrict (.text (objectText (literals.map fun l => memberText l.1 l.2)))
      = .valid (.object (stringMembers members)) := by
  have hadmits : ∀ {t : Text}, HasNoSurrogate t → strictDialect.Admits t :=
    fun ht => (Json.admits_iff_hasNoSurrogate rfl).2 ht
  have hfree : HasNoSurrogate (objectText (literals.map fun l => memberText l.1 l.2)) := by
    refine Json.hasNoSurrogate_objectText fun e he => ?_
    obtain ⟨l, hl, rfl⟩ := List.mem_map.1 he
    obtain ⟨m, -, hm⟩ := Result.exists_right_of_forall₂ h l hl
    exact (hm.name.hasNoSurrogate hm.nameIsFree).memberText
      (hm.value.hasNoSurrogate hm.valueIsFree)
  -- each value is read on the level inside the braces
  have hmembers : List.Forall₂
      (Json.IsTextOf (Json.readMember strictDialect (Json.readValue strictDialect 199)))
      (literals.map fun l => memberText l.1 l.2) (stringMembers members) := by
    rw [stringMembers, List.forall₂_map_left_iff, List.forall₂_map_right_iff]
    refine h.imp fun l m hm => ?_
    exact hm.name.isTextOf_memberText (hadmits hm.nameIsFree)
      (hm.value.isTextOf (hadmits hm.valueIsFree) 199)
  have hread : Json.read strictDialect (objectText _) = .ok (.object (stringMembers members)) :=
    Json.read_objectText (opens_strictDialect _) hmembers
  rw [loadStrict_text hfree, hread]

/-- **An object of strings that is written is loaded again.** -/
theorem loadStrict_print {members : List (Text × Text)}
    (h : ∀ m ∈ members, HasNoSurrogate m.1 ∧ HasNoSurrogate m.2) :
    loadStrict (.text (Json.print (.object (stringMembers members))))
      = .valid (.object (stringMembers members)) := by
  have hliterals : List.Forall₂ IsMemberOf
      (members.map fun m => (Json.printString m.1, Json.printString m.2)) members := by
    rw [List.forall₂_map_left_iff, List.forall₂_same]
    intro m hm
    exact ⟨Json.isLiteral_printString m.1, Json.isLiteral_printString m.2, (h m hm).1, (h m hm).2⟩
  have hloads := loadStrict_objectText hliterals
  rw [List.map_map] at hloads
  rw [Json.print_stringMembers]
  exact hloads

/-! ## §4. Nesting. -/

/-- **An object is not loaded if its value is nested beyond the last level.** -/
theorem loadStrict_nestedArray {name : Text} (hname : HasNoSurrogate name) {n : Nat}
    (h : 200 ≤ n) :
    loadStrict (.text (Json.print (.object [(name, Json.nestedArray n)]))) = .expected .json := by
  have hvalue : ∀ rest, Json.innerReader strictDialect strictDialect.maxNesting
      (Json.skipBlank (Json.print (Json.nestedArray n) ++ rest)) = .error .tooDeep := by
    intro rest
    obtain ⟨s, hs⟩ := Json.exists_print_nestedArray n
    have hdeep : Json.readValue strictDialect 199 (Json.print (Json.nestedArray n) ++ rest)
        = .error .tooDeep := Json.readValue_nestedArray strictDialect h rest
    rw [hs] at hdeep ⊢
    exact hdeep
  have hadmits : strictDialect.Admits name := (Json.admits_iff_hasNoSurrogate rfl).2 hname
  have hread := (Json.isLiteral_printString name).read_objectText_error hadmits
    (opens_strictDialect _) hvalue
  rw [loadStrict_text (Json.hasNoSurrogate_nestedObject hname n), Json.print_object_singleton,
    hread]

end EditorWire
