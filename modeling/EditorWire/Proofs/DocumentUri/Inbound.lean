/-
  EditorWire.Proofs.DocumentUri.Inbound — all ways in are one.

  A URI comes in by itself, as a JSON string, as the field of a record, from JSON
  or from memory, and as the key of a mapping.  Each way has a front of its own,
  and behind it the same reader:

      ofUrl s  =  d   ↔   ofJson "s" = d
                      ↔   DocumentField.ofJson {"uri":"s"} = ⟨d⟩
                      ↔   DocumentField.ofInput s = ⟨d⟩
                      ↔   DocumentMap.ofJson {"s":"t"} = [(d, t)]

  where the strings may be escaped in any way.  What goes out by any of these
  comes in by it again.

  Main results:
    * `ofJson_literal` — a literal is read as the URI it spells, faults included.
    * `inbound_agree` — the four ways, and the ways out.
-/
import EditorWire.Proofs.CodeAction.Fields
import EditorWire.Proofs.DocumentUri.RoundTrip
import EditorWire.Proofs.DocumentUri.Strict

namespace EditorWire

open Json (IsLiteral HasNoSurrogate memberText objectText stringMembers)

/-! ## §1. Values. -/

namespace DocumentUri

variable {s literal : Text} {d : DocumentUri}

/-- A string passes the check if it is a URI, and then as its document. -/
theorem check_string_eq_valid_iff : check (.string s) = .valid d ↔ ofUrl s = .ok d := by
  cases h : ofUrl s <;> simp [check, h, Checked.expected]

/-- **A literal is read as the URI it spells**, and fails as the URI does. -/
theorem ofJson_literal (h : IsLiteral literal s) : ofJson (.text literal) = ofUrl s := by
  unfold ofJson
  rw [h.load]
  rfl

/-- A URI that is written is ASCII. -/
theorem hasNoSurrogate_toUrl (d : DocumentUri) : HasNoSurrogate d.toUrl := by
  have hpath := Percent.isWritten_of_mem_encode (Path.isScalar_rooted d.isScalar)
  have hfront : HasNoSurrogate (fileScheme ++ Text.ofString "://") := by decide
  refine hfront.append fun c hc => ?_
  have hbounds := (hpath c hc).bounds
  exact Json.not_isSurrogate_of_lt (by omega)

end DocumentUri

/-! ## §2. Records. -/

namespace DocumentField

variable {s literal nameLiteral : Text} {f : DocumentField}

theorem ofValue_string_eq_ok_iff :
    ofValue (.string s) = .ok f ↔ DocumentUri.ofUrl s = .ok f.uri := by
  rw [← DocumentUri.check_string_eq_valid_iff]
  unfold ofValue
  cases DocumentUri.check (.string s) with
  | valid d =>
    obtain ⟨e⟩ := f
    simp
  | invalid vs => simp

/-- The record is that of its only member. -/
theorem check_eq_valid_iff :
    check (.object (stringMembers [(fieldName, s)])) = .valid f
      ↔ DocumentUri.ofUrl s = .ok f.uri := by
  have hfield : Bindings.get? (stringMembers [(fieldName, s)]).reverse fieldName
      = some (.string s) := rfl
  rw [← DocumentUri.check_string_eq_valid_iff]
  simp only [check, hfield, Checked.map_eq_valid_iff, Checked.under_eq_valid_iff]
  constructor
  · intro h
    obtain ⟨d, hd, rfl⟩ := h
    exact hd
  · exact fun h => ⟨f.uri, h, rfl⟩

/-- What is loaded from a payload is checked. -/
theorem ofJson_eq_ok_iff {payload : Payload} {v : Json} (h : loadStrict payload = .valid v) :
    ofJson payload = .ok f ↔ check v = .valid f := by
  unfold ofJson
  simp only [h, Checked.toExcept_eq_ok_iff]

theorem ofJson_literals_eq_ok_iff (hname : IsLiteral nameLiteral fieldName)
    (h : IsLiteral literal s) (hs : HasNoSurrogate s) :
    ofJson (.text (objectText [memberText nameLiteral literal])) = .ok f
      ↔ DocumentUri.ofUrl s = .ok f.uri := by
  have hmember : IsMemberOf (nameLiteral, literal) (fieldName, s) :=
    ⟨hname, h, by show HasNoSurrogate fieldName; decide, hs⟩
  exact (ofJson_eq_ok_iff (loadStrict_objectText (.cons hmember .nil))).trans check_eq_valid_iff

end DocumentField

/-! ## §3. Mappings. -/

namespace DocumentMap

/-- A name that is the URI of the document, and the text as a string. -/
def IsBindingOf (member : Text × Json) (binding : DocumentUri × Text) : Prop :=
  DocumentUri.ofUrl member.1 = .ok binding.1 ∧ member.2 = .string binding.2

theorem checkText_eq_valid_iff {v : Json} {t : Text} : checkText v = .valid t ↔ v = .string t := by
  cases v <;> simp [checkText, Checked.expected]

theorem checkMember_eq_valid_iff {member : Text × Json} {binding : DocumentUri × Text} :
    checkMember member.1 member.2 = .valid binding ↔ IsBindingOf member binding := by
  simp only [checkMember, Checked.apply_eq_valid_iff, Checked.map_eq_valid_iff,
    Checked.under_eq_valid_iff, DocumentUri.check_string_eq_valid_iff, checkText_eq_valid_iff]
  constructor
  · intro h
    obtain ⟨_, t, ⟨d, hd, rfl⟩, ht, rfl⟩ := h
    exact ⟨hd, ht⟩
  · intro h
    exact ⟨_, binding.2, ⟨binding.1, h.1, rfl⟩, h.2, rfl⟩

/-- **The members pass exactly if each is a binding**, and then as these, in order. -/
theorem checkMembers_eq_valid_iff {members : Members} {bindings : List (DocumentUri × Text)} :
    checkMembers members = .valid bindings ↔ List.Forall₂ IsBindingOf members bindings := by
  induction members generalizing bindings with
  | nil =>
    rw [List.forall₂_nil_left_iff]
    show Checked.valid [] = .valid bindings ↔ _
    simp [eq_comm]
  | cons member members ih =>
    show ((checkMember member.1 member.2).map List.cons).apply (checkMembers members) = _ ↔ _
    simp only [Checked.apply_eq_valid_iff, Checked.map_eq_valid_iff, checkMember_eq_valid_iff, ih,
      List.forall₂_cons_left_iff]
    constructor
    · intro h
      obtain ⟨_, rest, ⟨binding, hbinding, rfl⟩, hrest, rfl⟩ := h
      exact ⟨binding, rest, hbinding, hrest, rfl⟩
    · intro h
      obtain ⟨binding, rest, hbinding, hrest, rfl⟩ := h
      exact ⟨_, rest, ⟨binding, hbinding, rfl⟩, hrest, rfl⟩

/-- What is loaded from a payload is bound, one binding after another. -/
theorem ofJson_eq_ok_iff {payload : Payload} {members : Members} {m : DocumentMap}
    (h : loadStrict payload = .valid (.object members)) :
    ofJson payload = .ok m
      ↔ ∃ bindings, List.Forall₂ IsBindingOf members bindings ∧ Bindings.ofList bindings = m := by
  unfold ofJson
  simp only [h, Checked.toExcept_eq_ok_iff, check, Checked.map_eq_valid_iff,
    checkMembers_eq_valid_iff]

/-- An object of one string is a mapping of one document. -/
theorem ofJson_literals_eq_ok_iff {s t literal textLiteral : Text} {m : DocumentMap}
    (hs : IsLiteral literal s) (ht : IsLiteral textLiteral t) (hsFree : HasNoSurrogate s)
    (htFree : HasNoSurrogate t) :
    ofJson (.text (objectText [memberText literal textLiteral])) = .ok m
      ↔ ∃ d, DocumentUri.ofUrl s = .ok d ∧ m = [(d, t)] := by
  have hmember : IsMemberOf (literal, textLiteral) (s, t) := ⟨hs, ht, hsFree, htFree⟩
  refine (ofJson_eq_ok_iff (loadStrict_objectText (.cons hmember .nil))).trans ?_
  simp only [stringMembers, List.map_cons, List.map_nil, List.forall₂_cons_left_iff,
    List.forall₂_nil_left_iff, IsBindingOf, Json.string.injEq]
  constructor
  · intro h
    obtain ⟨_, ⟨⟨d, t'⟩, _, ⟨hd, rfl⟩, rfl, rfl⟩, rfl⟩ := h
    exact ⟨d, hd, rfl⟩
  · intro h
    obtain ⟨d, hd, rfl⟩ := h
    exact ⟨_, ⟨(d, t), _, ⟨hd, rfl⟩, rfl, rfl⟩, rfl⟩

end DocumentMap

/-! ## §4. All ways. -/

namespace DocumentUri

/-- **All ways in are one, and what goes out by them comes in again.** -/
theorem inbound_agree :
    (∀ s literal, HasNoSurrogate s → IsLiteral literal s →
      (∀ d, ofJson (.text literal) = .ok d ↔ ofUrl s = .ok d)
      ∧ (∀ nameLiteral, IsLiteral nameLiteral DocumentField.fieldName → ∀ f,
        DocumentField.ofJson (.text (objectText [memberText nameLiteral literal])) = .ok f
          ↔ ofUrl s = .ok f.uri)
      ∧ (∀ f, DocumentField.ofInput (.value (.string s)) = .ok f ↔ ofUrl s = .ok f.uri)
      ∧ ∀ t textLiteral, HasNoSurrogate t → IsLiteral textLiteral t → ∀ m,
        DocumentMap.ofJson (.text (objectText [memberText literal textLiteral])) = .ok m
          ↔ ∃ d, ofUrl s = .ok d ∧ m = [(d, t)])
    ∧ ∀ d : DocumentUri,
      ofJson (.text d.toJson) = .ok d
      ∧ DocumentField.ofInput (.document d) = .ok ⟨d⟩
      ∧ DocumentField.ofJson (.text (DocumentField.toJson ⟨d⟩)) = .ok ⟨d⟩ := by
  refine ⟨fun s literal hs h => ⟨fun d => ?_, fun nameLiteral hname f => ?_, fun f => ?_,
    fun t textLiteral ht htext m => ?_⟩, fun d => ⟨?_, rfl, ?_⟩⟩
  · rw [ofJson_literal h]
  · exact DocumentField.ofJson_literals_eq_ok_iff hname h hs
  · exact DocumentField.ofValue_string_eq_ok_iff
  · exact DocumentMap.ofJson_literals_eq_ok_iff h htext hs ht
  · have htext : d.toJson = Json.printString d.toUrl := by rw [toJson, Json.print]
    rw [htext, ofJson_literal (Json.isLiteral_printString d.toUrl), ofUrl_toUrl]
  · have htext : DocumentField.toJson ⟨d⟩ = objectText
        [memberText (Json.printString DocumentField.fieldName) (Json.printString d.toUrl)] :=
      Json.print_stringMembers [(DocumentField.fieldName, d.toUrl)]
    rw [htext]
    exact (DocumentField.ofJson_literals_eq_ok_iff (Json.isLiteral_printString _)
      (Json.isLiteral_printString _) (hasNoSurrogate_toUrl d)).2 (ofUrl_toUrl d)

/-- A URI with a blank in its path. -/
def spacedUrl : Text := "file:///a%20b"

/-- The URI with its slashes escaped and its last letter by number, up to the quote behind it. -/
def spacedBody : Text := "file:\\/\\/\\/a%20\\u0062\""

/-- The URI as a literal. -/
def spacedLiteral : Text := Ascii.quote :: spacedBody

/-- All ways in read that literal as one document. -/
theorem inbound_agree_spaced :
    (HasNoSurrogate spacedUrl ∧ IsLiteral spacedLiteral spacedUrl)
      ∧ ∃ d, ofUrl spacedUrl = .ok d
        ∧ ofJson (.text spacedLiteral) = .ok d
        ∧ DocumentField.ofJson (.text (objectText
          [memberText (Json.printString DocumentField.fieldName) spacedLiteral])) = .ok ⟨d⟩
        ∧ DocumentField.ofInput (.value (.string spacedUrl)) = .ok ⟨d⟩
        ∧ DocumentMap.ofJson (.text (objectText [memberText spacedLiteral spacedLiteral]))
          = .ok [(d, spacedUrl)] := by
  have hpieces : Json.readPieces [] spacedBody
      = .ok ((Text.ofString "file:///a%20").map Json.Piece.plain ++ [.numeric 0x62], []) := by
    cbv
  have hliteral : IsLiteral spacedLiteral spacedUrl :=
    ⟨spacedBody, _, rfl, Json.hasPieces_of_readPieces hpieces, by decide⟩
  have hfree : HasNoSurrogate spacedUrl := by decide
  obtain ⟨d, hurl⟩ : ∃ d, ofUrl spacedUrl = .ok d := by
    have hok : (ofUrl spacedUrl).toBool = true := by cbv
    cases h : ofUrl spacedUrl with
    | ok d => exact ⟨d, rfl⟩
    | error failure =>
      rw [h] at hok
      cases hok
  obtain ⟨hjson, hfield, hinput, hmap⟩ := inbound_agree.1 spacedUrl spacedLiteral hfree hliteral
  exact ⟨⟨hfree, hliteral⟩, _, hurl, (hjson _).2 hurl,
    (hfield _ (Json.isLiteral_printString _) ⟨_⟩).2 hurl, (hinput ⟨_⟩).2 hurl,
    (hmap _ _ hfree hliteral _).2 ⟨_, hurl, rfl⟩⟩

end DocumentUri

end EditorWire
