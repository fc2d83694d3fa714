/-
  EditorWire.Proofs.CodeAction.Canonical — texts that are written as they came.

  A response is canonical when it is the printed text of an array of objects that
  have nothing to lose: every name is the name of a field, the names stand in the
  order of the fields, no number is infinite.  Such an object is its own
  projection; and every projection is such an object, since cutting down changes
  neither the shape an object is read as nor the order of what is left:

      project v = v              ↔   v is canonical
      project (project v)        =   project v

  Main result:
    * `Holder.encodeList_eq_self_iff` — a response that is decoded is written as
      the same text exactly if it is canonical.
-/
import EditorWire.Proofs.CodeAction.Lists
import EditorWire.Proofs.CodeAction.Projection
import EditorWire.Proofs.Json.ReadBack

namespace EditorWire

open Bindings (collect restrict)
open Json (Everywhere IsHeld IsFinite everywhere_object_iff everywhere_array_iff)

/-! ## §1. Canonical responses. -/

/-- The names of an object are names of fields in their order, those of a command inside it too. -/
def Item.IsOrdered (members : Members) : Prop :=
  match classify members with
  | .command => List.Sublist (Bindings.keys members) Command.fieldNames
  | .codeAction =>
      List.Sublist (Bindings.keys members) CodeAction.wireNames
        ∧ ∀ inner, Bindings.get? members (Text.ofString "command") = some (.object inner) →
            List.Sublist (Bindings.keys inner) Command.fieldNames

/-- An object that has nothing to lose. -/
structure Item.IsCanonical (members : Members) : Prop where
  /-- It binds each name once, on every level, and its fractions are numbers of the format. -/
  held : Everywhere IsHeld (.object members)
  /-- No number in it is infinite. -/
  finite : Everywhere IsFinite (.object members)
  /-- Its names are in order. -/
  ordered : IsOrdered members

/-- The text is that of an array of such objects. -/
def Holder.IsCanonicalText (raw : Text) : Prop :=
  ∃ objects : List Members, raw = Json.print (.array (objects.map .object))
    ∧ ∀ members ∈ objects, Item.IsCanonical members

/-! ## §2. A canonical object is its own projection. -/

theorem Command.cut_eq_self {v : Json}
    (h : ∀ inner, v = .object inner → List.Sublist (Bindings.keys inner) fieldNames) :
    cut v = v := by
  unfold cut
  split
  · next inner => rw [Bindings.restrict_eq_self (by decide) (h inner rfl)]
  · rfl

/-- Without the other name of the preference every field comes from the member of its name. -/
theorem CodeAction.wireValue?_of_sublist {members : Members}
    (hkeys : List.Sublist (Bindings.keys members) wireNames)
    (hcommand : ∀ inner, Bindings.get? members (Text.ofString "command") = some (.object inner) →
      List.Sublist (Bindings.keys inner) Command.fieldNames) (name : Text) :
    wireValue? members name = Bindings.get? members name := by
  by_cases hname : name = Text.ofString "command"
  · subst hname
    rw [wireValue?_command]
    cases hget : Bindings.get? members (Text.ofString "command") with
    | none => rfl
    | some v =>
      have hcut : Command.cut v = v :=
        Command.cut_eq_self fun inner hinner => hcommand inner (by rw [hget, hinner])
      rw [Option.map_some, hcut]
  by_cases hpreferred : name = preferredName
  · subst hpreferred
    rw [wireValue?_preferred]
    unfold preferenceName
    split
    · rfl
    · next hhas =>
      -- neither of the two names is there
      have halias : Bindings.get? members preferredAlias = none := by
        rw [Bindings.get?_eq_none_iff]
        exact fun hmem => absurd (hkeys.subset hmem) (by decide)
      have hnone : Bindings.get? members preferredName = none := by
        unfold Bindings.has at hhas
        exact Option.not_isSome_iff_eq_none.1 hhas
      rw [halias, hnone]
  · exact wireValue?_eq_get? members hpreferred hname

theorem Item.projection_eq_self {members : Members} (h : IsOrdered members) :
    projection members = members := by
  unfold projection
  unfold IsOrdered at h
  split
  · next hvariant =>
    rw [hvariant] at h
    exact Bindings.restrict_eq_self (by decide) h
  · next hvariant =>
    rw [hvariant] at h
    obtain ⟨hkeys, hcommand⟩ := h
    rw [Bindings.collect_congr fun name _ => CodeAction.wireValue?_of_sublist hkeys hcommand name]
    exact Bindings.restrict_eq_self (by decide) hkeys

/-! ## §3. A projection is canonical. -/

/-- Replacing infinities makes no objects. -/
theorem Json.finiteOnly_eq_object_iff {v : Json} {members : Members} :
    v.finiteOnly = .object members
      ↔ ∃ inner, v = .object inner ∧ Json.finiteOnlyMembers inner = members := by
  constructor
  · intro h
    cases v with
    | object inner =>
      rw [Json.finiteOnly] at h
      exact ⟨inner, rfl, Json.object.inj h⟩
    | float x =>
      rw [Json.finiteOnly] at h
      split at h <;> cases h
    | array items =>
      rw [Json.finiteOnly] at h
      cases h
    | null | bool _ | int _ | string _ => cases h
  · rintro ⟨inner, rfl, rfl⟩
    rw [Json.finiteOnly]

theorem Json.get?_finiteOnlyMembers (members : Members) (name : Text) :
    Bindings.get? (Json.finiteOnlyMembers members) name
      = (Bindings.get? members name).map Json.finiteOnly := by
  induction members with
  | nil => rfl
  | cons m members ih =>
    obtain ⟨key, v⟩ := m
    rw [Json.finiteOnlyMembers, Bindings.get?, Bindings.get?, ih]
    split <;> rfl

/-- A command that is cut down has only the names of its fields. -/
theorem Command.keys_of_cut {v : Json} {inner : Members} (h : cut v = .object inner) :
    List.Sublist (Bindings.keys inner) fieldNames := by
  unfold cut at h
  split at h
  · next members =>
    rw [← Json.object.inj h]
    exact Bindings.keys_collect _ _
  · next hne => exact absurd h (hne inner)

namespace Item

/-- What makes an object a code action. -/
theorem classify_eq_codeAction_iff {members : Members} :
    classify members = .codeAction
      ↔ (∃ name ∈ codeActionNames, Bindings.get? members name ≠ none)
        ∨ ∃ inner, Bindings.get? members (Text.ofString "command") = some (.object inner) := by
  have hany : codeActionNames.any (Bindings.has members) = true
      ↔ ∃ name ∈ codeActionNames, Bindings.get? members name ≠ none := by
    rw [List.any_eq_true]
    simp only [Bindings.has, Option.isSome_iff_ne_none]
  unfold classify
  split
  · next h => exact ⟨fun _ => .inl (hany.1 h), fun _ => rfl⟩
  · next h =>
    rw [hany] at h
    split
    · next inner heq => exact ⟨fun _ => .inr ⟨inner, heq⟩, fun _ => rfl⟩
    · next hne =>
      constructor
      · intro hvariant
        cases hvariant
      · rintro (hname | ⟨inner, hinner⟩)
        · exact absurd hname h
        · exact absurd hinner (hne inner)

/-- What an object is written as. -/
def written (members : Members) : Members := Json.finiteOnlyMembers (projection members)

theorem get?_written_of_command {members : Members} (h : classify members = .command)
    (name : Text) :
    Bindings.get? (written members) name
      = if name ∈ Command.fieldNames then (Bindings.get? members name).map Json.finiteOnly
        else none := by
  unfold written projection
  rw [Json.get?_finiteOnlyMembers, h]
  show (Bindings.get? (restrict Command.fieldNames members) name).map _ = _
  rw [restrict, Bindings.get?_collect]
  split <;> rfl

theorem get?_written_of_codeAction {members : Members} (h : classify members = .codeAction)
    (name : Text) :
    Bindings.get? (written members) name
      = if name ∈ CodeAction.wireNames then
          (CodeAction.wireValue? members name).map Json.finiteOnly
        else none := by
  unfold written projection
  rw [Json.get?_finiteOnlyMembers, h]
  show (Bindings.get? (collect CodeAction.wireNames (CodeAction.wireValue? members)) name).map _ = _
  rw [Bindings.get?_collect]
  split <;> rfl

/-- The names only code actions have are names on the wire, each with its own member. -/
theorem wireValue?_ne_none {members : Members} {name : Text} (hname : name ∈ codeActionNames)
    (h : Bindings.get? members name ≠ none) : CodeAction.wireValue? members name ≠ none := by
  have hcommand : name ≠ Text.ofString "command" := by
    intro heq
    rw [heq] at hname
    exact absurd hname (by decide)
  by_cases hpreferred : name = CodeAction.preferredName
  · subst hpreferred
    have hhas : Bindings.has members CodeAction.preferredName = true :=
      Option.isSome_iff_ne_none.2 h
    rw [CodeAction.wireValue?_preferred, CodeAction.preferenceName, if_pos hhas]
    exact h
  · rw [CodeAction.wireValue?_eq_get? members hpreferred hcommand]
    exact h

/-- **What is written is read as the same shape.** -/
theorem classify_written (members : Members) :
    classify (written members) = classify members := by
  cases hvariant : classify members with
  | command =>
    cases hwritten : classify (written members) with
    | command => rfl
    | codeAction =>
      -- a code action would have been one before
      exfalso
      have hnot : classify members ≠ .codeAction := by
        rw [hvariant]
        intro h
        cases h
      refine hnot (classify_eq_codeAction_iff.2 ?_)
      rcases classify_eq_codeAction_iff.1 hwritten with ⟨name, hname, hget⟩ | ⟨inner, hget⟩
      · have hfield : ∀ name ∈ codeActionNames, name ∉ Command.fieldNames := by decide
        rw [get?_written_of_command hvariant, if_neg (hfield name hname)] at hget
        exact absurd rfl hget
      · rw [get?_written_of_command hvariant, if_pos (by decide)] at hget
        obtain ⟨v, hv, hobject⟩ := Option.map_eq_some_iff.1 hget
        obtain ⟨inner', rfl, -⟩ := Json.finiteOnly_eq_object_iff.1 hobject
        exact .inr ⟨inner', hv⟩
  | codeAction =>
    -- what made it a code action is written too
    rw [classify_eq_codeAction_iff]
    rcases classify_eq_codeAction_iff.1 hvariant with ⟨name, hname, hget⟩ | ⟨inner, hget⟩
    · have hwire : ∀ name ∈ codeActionNames, name ∈ CodeAction.wireNames := by decide
      refine .inl ⟨name, hname, ?_⟩
      rw [get?_written_of_codeAction hvariant, if_pos (hwire name hname), Ne,
        Option.map_eq_none_iff]
      exact wireValue?_ne_none hname hget
    · refine .inr ⟨Json.finiteOnlyMembers (restrict Command.fieldNames inner), ?_⟩
      rw [get?_written_of_codeAction hvariant, if_pos (by decide), CodeAction.wireValue?_command,
        hget]
      show some (Json.finiteOnly (.object _)) = _
      rw [Json.finiteOnly]

theorem isOrdered_written (members : Members) : IsOrdered (written members) := by
  have hkeys : Bindings.keys (written members) = Bindings.keys (projection members) :=
    Json.keys_finiteOnlyMembers _
  -- it is read as the same shape, so the same fields are allowed
  unfold IsOrdered
  rw [classify_written, hkeys]
  cases hvariant : classify members with
  | command =>
    show List.Sublist _ _
    rw [projection, hvariant]
    exact Bindings.keys_collect _ _
  | codeAction =>
    refine ⟨?_, fun inner hinner => ?_⟩
    · rw [projection, hvariant]
      exact Bindings.keys_collect _ _
    · rw [get?_written_of_codeAction hvariant, if_pos (by decide),
        CodeAction.wireValue?_command, Option.map_map] at hinner
      obtain ⟨v, -, hobject⟩ := Option.map_eq_some_iff.1 hinner
      obtain ⟨inner', hcut, rfl⟩ := Json.finiteOnly_eq_object_iff.1 hobject
      rw [Json.keys_finiteOnlyMembers]
      exact Command.keys_of_cut hcut

/-- **What is written of an object that can be held has nothing to lose.** -/
theorem isCanonical_written {members : Members} (h : Everywhere IsHeld (.object members)) :
    IsCanonical (written members) := by
  have hprojection : Everywhere IsHeld (.object (projection members)) :=
    everywhere_projection (fun names value? h => (Bindings.keys_collect names value?).nodup h) h
  have hheld := Json.everywhere_isHeld_finiteOnly hprojection
  have hfinite := Json.everywhere_isFinite_finiteOnly (.object (projection members))
  rw [Json.finiteOnly] at hheld hfinite
  exact ⟨hheld, hfinite, isOrdered_written members⟩

end Item

/-- An object that has nothing to lose is written as it is. -/
theorem Item.written_eq_self {members : Members} (h : IsCanonical members) :
    written members = members := by
  have hfinite := Json.finiteOnly_eq_self h.finite
  rw [Json.finiteOnly] at hfinite
  unfold written
  rw [projection_eq_self h.ordered]
  exact Json.object.inj hfinite

/-! ## §4. Responses. -/

/-- The values of a response that is decoded are objects. -/
theorem Item.exists_objects_of_decode {values : List Json} {items : List Item}
    (h : List.Forall₂ (fun v item => decode v = .ok item) values items) :
    ∃ objects : List Members, values = objects.map .object
      ∧ List.Forall₂ (fun members item => check (classify members) members = .valid item)
          objects items := by
  induction h with
  | nil => exact ⟨[], rfl, .nil⟩
  | cons hitem _ ih =>
    obtain ⟨members, rfl, hcheck⟩ := decode_eq_ok_iff.1 hitem
    obtain ⟨objects, rfl, hobjects⟩ := ih
    exact ⟨members :: objects, rfl, .cons hcheck hobjects⟩

namespace Holder

/-- Each item of a response is written as what is left of its object. -/
theorem toWireList_of_check {objects : List Members} {items : List Item}
    (h : List.Forall₂ (fun members item => Item.check (classify members) members = .valid item)
      objects items)
    (hdepth : ∀ members ∈ objects, (Json.object members).depth ≤ Item.maxWrittenNesting) :
    toWireList (items.map of)
      = .ok (objects.map fun members => .object (Item.written members)) := by
  rw [toWireList_eq_ok_iff, List.forall₂_map_left_iff, List.forall₂_map_right_iff]
  refine List.Forall₂.imp ?_ ((List.forall₂_and_left objects items).2 ⟨hdepth, h⟩).flip
  intro item members hmembers
  show item.toWire = _
  rw [Item.toWire_of_check hmembers.2 hmembers.1, Json.finiteOnly]
  rfl

/-- A response that is decoded is written as what is left of its objects. -/
theorem exists_objects_of_listOfJson {raw : Text} {v : Json} {holders : List Holder}
    (hload : Json.load (.text raw) = .ok v) (hdepth : v.depth ≤ Item.maxWrittenNesting)
    (hdecode : listOfJson (.text raw) = .ok holders) :
    ∃ objects : List Members, v = .array (objects.map .object)
      ∧ encodeList holders
        = .ok (Json.print (.array ((objects.map Item.written).map .object))) := by
  obtain ⟨values, items, hvalues, hitems, rfl⟩ := listOfJson_eq_ok_iff.1 hdecode
  obtain rfl := Except.ok.inj (hvalues.symm.trans hload)
  obtain ⟨objects, rfl, hobjects⟩ := Item.exists_objects_of_decode hitems
  refine ⟨objects, rfl, ?_⟩
  rw [Json.depth] at hdepth
  have hshallow : ∀ members ∈ objects, (Json.object members).depth ≤ Item.maxWrittenNesting := by
    intro members hmembers
    exact Json.depthItems_le_iff.1 (Nat.le_of_succ_le hdepth) _ (List.mem_map_of_mem hmembers)
  unfold encodeList
  rw [toWireList_of_check hobjects hshallow, List.map_map]
  rfl

/-- **A response is written as it came exactly if it is canonical.** -/
theorem encodeList_eq_self_iff {raw : Text} {v : Json} {holders : List Holder}
    (hload : Json.load (.text raw) = .ok v) (hdepth : v.depth ≤ 240)
    (hdecode : listOfJson (.text raw) = .ok holders) :
    encodeList holders = .ok raw ↔ IsCanonicalText raw := by
  obtain ⟨objects, rfl, hencode⟩ := exists_objects_of_listOfJson hload
    (Nat.le_trans hdepth (by decide)) hdecode
  have hheld := Json.everywhere_isHeld_of_load hload
  rw [everywhere_array_iff, List.forall_mem_map] at hheld
  rw [hencode]
  constructor
  · -- what is written is canonical, whatever was read
    intro h
    refine ⟨objects.map Item.written, (Except.ok.inj h).symm, ?_⟩
    rw [List.forall_mem_map]
    exact fun members hmembers => Item.isCanonical_written (hheld.2 members hmembers)
  · -- a canonical text is read back as the objects it was printed from
    rintro ⟨canonical, rfl, hcanonical⟩
    have hprinted : Everywhere IsHeld (.array (canonical.map .object)) := by
      rw [everywhere_array_iff, List.forall_mem_map]
      exact ⟨trivial, fun members hmembers => (hcanonical members hmembers).held⟩
    have hsame := Json.array.inj ((Json.load_print hprinted).1 hload).2
    have hobjects : objects = canonical :=
      List.map_injective_iff.2 (fun _ _ h => Json.object.inj h) hsame
    subst hobjects
    have hself : objects.map Item.written = objects.map id :=
      List.map_congr_left fun members hmembers =>
        Item.written_eq_self (hcanonical members hmembers)
    rw [hself, List.map_id]

end Holder

/-- A response with a command inside a code action. -/
def CodeAction.nestedText : Text :=
  "[\x7b\"title\":\"t\",\"command\":\x7b\"title\":\"u\",\"command\":\"c\"\x7d,\"data\":[true]\x7d]"

/-- The value of that response. -/
def CodeAction.nestedValue : Json :=
  .array [.object [("title", .string "t"),
    ("command", .object [("title", .string "u"), ("command", .string "c")]),
    ("data", .array [.bool true])]]

/-- The response has nothing to lose. -/
theorem Holder.isCanonicalText_nested :
    Json.load (.text CodeAction.nestedText) = .ok CodeAction.nestedValue
      ∧ CodeAction.nestedValue.depth ≤ 240
      ∧ Holder.IsCanonicalText CodeAction.nestedText := by
  have hprint : CodeAction.nestedText = Json.print CodeAction.nestedValue := by rfl
  have hheld : Everywhere IsHeld CodeAction.nestedValue := by
    simp only [CodeAction.nestedValue, everywhere_array_iff, everywhere_object_iff, IsHeld,
      Bindings.keys, Text.ofString, List.mem_cons, List.not_mem_nil, or_false, forall_eq_or_imp,
      forall_eq, List.map_cons, List.map_nil, true_and]
    refine ⟨by decide, ?_, ⟨by decide, ?_, ?_⟩, ?_⟩ <;> exact Json.everywhere_atom trivial trivial
  have hshort : Everywhere Json.IsShort CodeAction.nestedValue := by
    simp only [CodeAction.nestedValue, everywhere_array_iff, everywhere_object_iff, Json.IsShort,
      List.mem_cons, List.not_mem_nil, or_false, forall_eq_or_imp, forall_eq, true_and]
    refine ⟨?_, ⟨?_, ?_⟩, ?_⟩ <;> exact Json.everywhere_atom trivial trivial
  have hload : Json.load (.text CodeAction.nestedText) = .ok CodeAction.nestedValue := by
    rw [hprint]
    exact (Json.load_print hheld).2 ⟨⟨hshort, by decide⟩, rfl⟩
  have hdecode : Holder.listOfJson (.text CodeAction.nestedText)
      = .ok [.of (.codeAction ⟨"t", .absent, .absent, .absent, .absent, .absent,
          .given ⟨"u", "c", .absent⟩, some (.array [.bool true])⟩)] := by
    rw [Holder.listOfJson_of_load hload]
    rfl
  exact ⟨hload, by decide, (Holder.encodeList_eq_self_iff hload (by decide) hdecode).1 (by rfl)⟩

end EditorWire
