/-
  EditorWire.Proofs.CodeAction.Projection — what is left of an object.

  An object that is decoded and written again loses the members that are no
  fields, and nothing else.  What is left is its projection, which is made
  without decoding:

      name      value
      ────      ─────
      field     the value of the member of that name, if there is one
      isPreferred   …or, if there is none, that of the member is_preferred
      command   an object restricted to the fields of a command

  Infinities become null on the way, whatever they are nested in.

  Main results:
    * `Item.wireMembers_of_check` — a decoded item has the projection of its
      object on the wire.
    * `Holder.toWire_of_decode` — decoding and writing is projecting.
-/
import EditorWire.Holder.Basic
import EditorWire.Proofs.Bindings
import EditorWire.Proofs.CodeAction.Fields
import EditorWire.Proofs.Json.Value

namespace EditorWire

open Bindings (collect collect_cons restrict)

/-! ## §1. The projection of an object. -/

/-- A command inside a code action, cut down to the fields of a command. -/
def Command.cut : Json → Json
  | .object members => .object (restrict fieldNames members)
  | v => v

namespace CodeAction

/-- The names of the fields on the wire, in order. -/
def wireNames : List Text :=
  ["title", "kind", "diagnostics", preferredName, "disabled", "edit", "command", "data"]

/-- The name of the member that a field on the wire comes from. -/
def sourceName (members : Members) (name : Text) : Text :=
  if name = preferredName ∧ ¬ Bindings.has members preferredName then preferredAlias else name

/-- The value of a field on the wire. -/
def wireValue? (members : Members) (name : Text) : Option Json :=
  (Bindings.get? members (sourceName members name)).map
    (if name = Text.ofString "command" then Command.cut else id)

end CodeAction

/-- What is left of an object that is decoded and written again. -/
def Item.projection (members : Members) : Members :=
  match classify members with
  | .command => restrict Command.fieldNames members
  | .codeAction => collect CodeAction.wireNames (CodeAction.wireValue? members)

/-! ## §2. Decoded items on the wire. -/

/-- A command is written as what it was read from, cut down to its fields. -/
theorem Command.wireMembers_of_check {members : Members} {c : Command}
    (h : Command.check members = .valid c) : c.wireMembers = restrict fieldNames members := by
  unfold Command.check at h
  -- the checks of the fields, from the last one to the first
  obtain ⟨f₂, arguments, h₂, harguments, rfl⟩ := Checked.apply_eq_valid_iff.1 h
  obtain ⟨f₁, command, h₁, hcommand, rfl⟩ := Checked.apply_eq_valid_iff.1 h₂
  obtain ⟨title, htitle, rfl⟩ := Checked.map_eq_valid_iff.1 h₁
  have hlast : arguments.member (Text.ofString "arguments") .array = _ :=
    Field.member_of_optional id rfl (fun v a ha => Field.eq_of_asList ha) harguments
  show [(Text.ofString "title", Json.string title), (Text.ofString "command", Json.string command)]
      ++ arguments.member (Text.ofString "arguments") .array = restrict fieldNames members
  unfold restrict fieldNames
  rw [collect_cons, collect_cons, collect_cons, Field.get?_of_requireText htitle,
    Field.get?_of_requireText hcommand, hlast, Option.map_id]
  show _ = _ ++ (_ ++ (_ ++ []))
  rw [List.append_nil]
  rfl

/-- A value that is a command is written as the value cut down. -/
theorem Command.object_of_checkValue {v : Json} {c : Command}
    (h : Command.checkValue v = .valid c) : Json.object c.wireMembers = Command.cut v := by
  unfold Command.checkValue at h
  split at h
  · next members =>
    rw [Command.wireMembers_of_check h]
    rfl
  · cases h

namespace CodeAction

/-- Most fields on the wire are the members of their names. -/
theorem wireValue?_eq_get? (members : Members) {name : Text} (hpreferred : name ≠ preferredName)
    (hcommand : name ≠ Text.ofString "command") :
    wireValue? members name = Bindings.get? members name := by
  have hsource : sourceName members name = name := if_neg fun h => hpreferred h.1
  rw [wireValue?, hsource, if_neg hcommand, Option.map_id]
  rfl

theorem wireValue?_preferred (members : Members) :
    wireValue? members preferredName = Bindings.get? members (preferenceName members) := by
  have hsource : sourceName members preferredName = preferenceName members := by
    unfold sourceName preferenceName
    cases Bindings.has members preferredName <;> rfl
  rw [wireValue?, hsource, if_neg (by decide), Option.map_id]
  rfl

theorem wireValue?_command (members : Members) :
    wireValue? members (Text.ofString "command")
      = (Bindings.get? members (Text.ofString "command")).map Command.cut := by
  have hsource : sourceName members (Text.ofString "command") = Text.ofString "command" :=
    if_neg fun h => absurd h.1 (by decide)
  rw [wireValue?, hsource, if_pos rfl]

/-- A field that is written as it was is written as its member. -/
theorem member_of_optional {α : Type} {members : Members} {name source : Text}
    {check : Json → Checked α} {write : α → Json} {field : Field α}
    (hwrite : ∀ v a, check v = .valid a → write a = v)
    (hvalue : wireValue? members name = Bindings.get? members source)
    (h : Field.optional members source check = .valid field) :
    field.member name write = ((wireValue? members name).map fun v => (name, v)).toList := by
  have hmember : field.member name write = _ :=
    Field.member_of_optional id rfl hwrite h
  rw [hmember, Option.map_id, hvalue]
  rfl

theorem wireMembers_eq (a : CodeAction) :
    a.wireMembers
      = [(Text.ofString "title", .string a.title)]
        ++ a.kind.member (Text.ofString "kind") .string
        ++ a.diagnostics.member (Text.ofString "diagnostics") objects
        ++ a.isPreferred.member preferredName .bool
        ++ a.disabled.member (Text.ofString "disabled") .object
        ++ a.edit.member (Text.ofString "edit") .object
        ++ a.command.member (Text.ofString "command") (fun c => .object c.wireMembers)
        ++ (a.data.map fun v => (Text.ofString "data", v)).toList := by
  unfold wireMembers
  cases a.data <;> rfl

/-- A code action is written as what its object has for the fields. -/
theorem wireMembers_of_check {members : Members} {a : CodeAction}
    (h : CodeAction.check members = .valid a) :
    a.wireMembers = collect wireNames (wireValue? members) := by
  unfold CodeAction.check CodeAction.checkWith at h
  -- the checks of the fields, from the last one to the first
  obtain ⟨f₇, data, h₇, hdata, rfl⟩ := Checked.apply_eq_valid_iff.1 h
  obtain ⟨f₆, command, h₆, hcommand, rfl⟩ := Checked.apply_eq_valid_iff.1 h₇
  obtain ⟨f₅, edit, h₅, hedit, rfl⟩ := Checked.apply_eq_valid_iff.1 h₆
  obtain ⟨f₄, disabled, h₄, hdisabled, rfl⟩ := Checked.apply_eq_valid_iff.1 h₅
  obtain ⟨f₃, preferred, h₃, hpreferred, rfl⟩ := Checked.apply_eq_valid_iff.1 h₄
  obtain ⟨f₂, diagnostics, h₂, hdiagnostics, rfl⟩ := Checked.apply_eq_valid_iff.1 h₃
  obtain ⟨f₁, kind, h₁, hkind, rfl⟩ := Checked.apply_eq_valid_iff.1 h₂
  obtain ⟨title, htitle, rfl⟩ := Checked.map_eq_valid_iff.1 h₁
  -- each field is written as the value its name has on the wire
  have htitle' : wireValue? members (Text.ofString "title") = some (.string title) := by
    rw [wireValue?_eq_get? members (by decide) (by decide), Field.get?_of_requireText htitle]
  have hkind' := member_of_optional (fun v a ha => Field.eq_of_asText ha)
    (wireValue?_eq_get? members (by decide) (by decide)) hkind
  have hdiagnostics' := member_of_optional (fun v a ha => Field.eq_of_asObjects ha)
    (wireValue?_eq_get? members (by decide) (by decide)) hdiagnostics
  have hpreferred' := member_of_optional (fun v a ha => Field.eq_of_asBool ha)
    (wireValue?_preferred members) hpreferred
  have hdisabled' := member_of_optional (fun v a ha => Field.eq_of_asObject ha)
    (wireValue?_eq_get? members (by decide) (by decide)) hdisabled
  have hedit' := member_of_optional (fun v a ha => Field.eq_of_asObject ha)
    (wireValue?_eq_get? members (by decide) (by decide)) hedit
  have hcommand' : command.member (Text.ofString "command") (fun c => .object c.wireMembers) = _ :=
    Field.member_of_optional Command.cut rfl
      (fun v c hc => Command.object_of_checkValue hc) hcommand
  rw [← wireValue?_command] at hcommand'
  have hdata' : wireValue? members (Text.ofString "data") = data := by
    rw [wireValue?_eq_get? members (by decide) (by decide), Checked.valid.inj hdata]
  rw [wireMembers_eq]
  simp only [hkind', hdiagnostics', hpreferred', hdisabled', hedit', hcommand', ← hdata']
  unfold wireNames
  simp only [collect_cons, htitle', List.append_assoc]
  show _ = _ ++ (_ ++ (_ ++ (_ ++ (_ ++ (_ ++ (_ ++ (_ ++ [])))))))
  rw [List.append_nil]
  rfl

end CodeAction

/-! ## §3. Decoding. -/

namespace Item

/-- A decoded item has the projection of its object on the wire. -/
theorem wireMembers_of_check {members : Members} {item : Item}
    (h : Item.check (classify members) members = .valid item) :
    item.wireMembers = projection members := by
  unfold projection
  cases hvariant : classify members with
  | command =>
    rw [hvariant] at h
    obtain ⟨c, hc, rfl⟩ := Checked.map_eq_valid_iff.1 h
    exact Command.wireMembers_of_check hc
  | codeAction =>
    rw [hvariant] at h
    obtain ⟨a, ha, rfl⟩ := Checked.map_eq_valid_iff.1 h
    exact CodeAction.wireMembers_of_check ha

/-- An item has the shape its object was read as. -/
theorem variant_of_check {variant : Variant} {members : Members} {item : Item}
    (h : Item.check variant members = .valid item) : item.variant = variant := by
  cases variant with
  | command =>
    obtain ⟨c, -, rfl⟩ := Checked.map_eq_valid_iff.1 h
    rfl
  | codeAction =>
    obtain ⟨a, -, rfl⟩ := Checked.map_eq_valid_iff.1 h
    rfl

/-- Only objects are decoded, and those whose check succeeds. -/
theorem decode_eq_ok_iff {v : Json} {item : Item} :
    decode v = .ok item
      ↔ ∃ members, v = .object members ∧ Item.check (classify members) members = .valid item := by
  constructor
  · intro h
    unfold decode at h
    split at h
    · next members => exact ⟨members, rfl, Checked.toExcept_eq_ok_iff.1 h⟩
    · cases h
  · rintro ⟨members, rfl, h⟩
    exact Checked.toExcept_eq_ok_iff.2 h

end Item

/-! ## §4. What is left keeps what its parts have. -/

/-- What is left of an object has what its members have, if that outlasts cutting a command. -/
theorem Item.forall_projection {p : Json → Prop} {members : Members}
    (hcut : ∀ v, p v → p (Command.cut v)) (h : ∀ m ∈ members, p m.2) :
    ∀ m ∈ projection members, p m.2 := by
  have hget : ∀ name v, Bindings.get? members name = some v → p v :=
    fun name v hv => h (name, v) (Bindings.mem_of_get? hv)
  intro m hm
  unfold projection at hm
  split at hm
  · exact hget m.1 m.2 (Bindings.mem_collect_iff.1 hm).2
  · have hvalue := (Bindings.mem_collect_iff.1 hm).2
    unfold CodeAction.wireValue? at hvalue
    obtain ⟨v, hv, heq⟩ := Option.map_eq_some_iff.1 hvalue
    rw [← heq]
    split
    · exact hcut v (hget _ v hv)
    · exact hget _ v hv

section Everywhere

open Json (Everywhere everywhere_object_iff)

variable {p : Json → Prop}

/-- A command that is cut down keeps what holds everywhere, if objects made along distinct names
have it. -/
theorem Command.everywhere_cut
    (hcollect : ∀ (names : List Text) value?, names.Nodup → p (.object (collect names value?)))
    {v : Json} (h : Everywhere p v) : Everywhere p (cut v) := by
  unfold cut
  split
  · next members =>
    rw [everywhere_object_iff] at h ⊢
    refine ⟨hcollect fieldNames _ (by decide), fun m hm => ?_⟩
    exact h.2 _ (Bindings.mem_of_get? (Bindings.mem_collect_iff.1 hm).2)
  · exact h

/-- So does the projection of an object. -/
theorem Item.everywhere_projection
    (hcollect : ∀ (names : List Text) value?, names.Nodup → p (.object (collect names value?)))
    {members : Members} (h : Everywhere p (.object members)) :
    Everywhere p (.object (projection members)) := by
  rw [everywhere_object_iff] at h ⊢
  refine ⟨?_, forall_projection (fun v => Command.everywhere_cut hcollect) h.2⟩
  unfold projection
  split
  · exact hcollect _ _ (by decide)
  · exact hcollect _ _ (by decide)

end Everywhere

/-- A mapping is not nested deeper for having fewer members. -/
theorem Command.depth_cut_le (v : Json) : (Command.cut v).depth ≤ v.depth := by
  unfold Command.cut
  split
  · next members =>
    rw [Json.depth, Json.depth, Nat.add_le_add_iff_right, Json.depthMembers_le_iff]
    intro m hm
    have hmem := Bindings.mem_of_get? (Bindings.mem_collect_iff.1 hm).2
    exact Json.depthMembers_le_iff.1 (Nat.le_refl _) _ hmem
  · exact Nat.le_refl _

theorem Item.depth_projection_le (members : Members) :
    (Json.object (projection members)).depth ≤ (Json.object members).depth := by
  rw [Json.depth, Json.depth, Nat.add_le_add_iff_right, Json.depthMembers_le_iff]
  exact forall_projection (p := fun v => v.depth ≤ Json.depthMembers members)
    (fun v hv => Nat.le_trans (Command.depth_cut_le v) hv)
    (Json.depthMembers_le_iff.1 (Nat.le_refl _))

/-! ## §5. Writing what was decoded. -/

/-- An object that is not nested too deep is written as its projection, infinities as null. -/
theorem Item.toWire_of_check {members : Members} {item : Item}
    (h : Item.check (classify members) members = .valid item)
    (hdepth : (Json.object members).depth ≤ maxWrittenNesting) :
    item.toWire = .ok (Json.object (projection members)).finiteOnly := by
  -- cutting down has made it no deeper, so nothing is refused
  have hshallow := Nat.le_trans (depth_projection_le members) hdepth
  unfold toWire
  rw [wireMembers_of_check h]
  simp only
  rw [if_neg (by omega)]

/-- **Decoding and writing loses and invents nothing**: what is written of an object is its
projection. -/
theorem Holder.toWire_of_decode {members : Members} {item : Item}
    (h : Item.decode (.object members) = .ok item)
    (hdepth : (Json.object members).depth ≤ 240) :
    (Holder.of item).toWire = .ok (Json.object (Item.projection members)).finiteOnly := by
  obtain ⟨members', hobject, hcheck⟩ := Item.decode_eq_ok_iff.1 h
  obtain rfl := Json.object.inj hobject
  exact Item.toWire_of_check hcheck (Nat.le_trans hdepth (by decide))

/-- An object with the other name of the preference, names of no field on both levels, and an
infinity. -/
def CodeAction.looseObject : Members :=
  [("is_preferred", .bool true), ("x", .int 1), ("title", .string "t"),
   ("command", .object [("command", .string "c"), ("y", .null), ("title", .string "u")]),
   ("data", .array [.float (.infinity false)])]

/-- The loose object, decoded and written. -/
theorem Holder.toWire_of_decode_loose :
    Item.decode (.object CodeAction.looseObject)
        = .ok (.codeAction ⟨"t", .absent, .absent, .given true, .absent, .absent,
            .given ⟨"u", "c", .absent⟩, some (.array [.float (.infinity false)])⟩)
      ∧ (Json.object CodeAction.looseObject).depth ≤ 240
      ∧ (Holder.of (.codeAction ⟨"t", .absent, .absent, .given true, .absent, .absent,
            .given ⟨"u", "c", .absent⟩, some (.array [.float (.infinity false)])⟩)).toWire
        = .ok (.object [("title", .string "t"), ("isPreferred", .bool true),
            ("command", .object [("title", .string "u"), ("command", .string "c")]),
            ("data", .array [.null])]) :=
  have hdecode : Item.decode (.object CodeAction.looseObject) = .ok _ := rfl
  ⟨hdecode, by decide, Holder.toWire_of_decode hdecode (by decide)⟩

end EditorWire
