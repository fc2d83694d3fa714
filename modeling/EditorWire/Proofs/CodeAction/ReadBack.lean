/-
  EditorWire.Proofs.CodeAction.ReadBack — items that are written are read back.

  An item is written with a member for each field that is present,

      absent    no member
      null      null
      given a   what a is written as, which is never null

  so each field is read back from its member.  Nothing that is written says which
  shape the item has, and it is made out again from the names alone; this fails
  exactly for a bare code action, whose members are a title and perhaps a command
  that is null, and then the text is not decoded at all.

  Main results:
    * `Item.check_wireMembers` — an item is read from its members.
    * `Item.classify_wireMembers_iff` — its shape is made out unless it is bare.
    * `Holder.ofJson_encode` — an item without infinities is read back from its text.
-/
import EditorWire.Proofs.CodeAction.Canonical

namespace EditorWire

open Bindings (collect collect_cons get?_collect)
open Json (Everywhere IsHeld IsShort IsFinite everywhere_object_iff)

/-! ## §1. A field and its member. -/

namespace Field

variable {α : Type}

/-- What a field is written as; nothing if it is absent. -/
def value? (write : α → Json) : Field α → Option Json
  | .absent => none
  | .null => some .null
  | .given a => some (write a)

theorem member_eq (name : Text) (write : α → Json) (field : Field α) :
    field.member name write = ((field.value? write).map fun v => (name, v)).toList := by
  cases field <;> rfl

theorem value?_eq_none_iff {write : α → Json} {field : Field α} :
    field.value? write = none ↔ field.isPresent = false := by
  cases field <;> simp [value?, isPresent]

theorem requireText_eq_valid {members : Members} {name t : Text}
    (h : Bindings.get? members name = some (.string t)) : requireText members name = .valid t := by
  unfold requireText
  rw [h]
  rfl

/-- A field is read back from its member. -/
theorem optional_eq_valid {members : Members} {name : Text} {check : Json → Checked α}
    {write : α → Json} {field : Field α} (h : Bindings.get? members name = field.value? write)
    (hcheck : ∀ a, check (write a) = .valid a) (hnull : ∀ a, write a ≠ .null) :
    optional members name check = .valid field := by
  unfold optional
  rw [h]
  cases field with
  | absent => rfl
  | null => rfl
  | given a =>
    -- what is written is not null, so it is checked
    rw [value?]
    split
    · next heq => cases heq
    · next heq => exact absurd (Option.some.inj heq) (hnull a)
    · next v _ heq =>
      rw [← Option.some.inj heq, hcheck a]
      rfl

theorem allObjects_map (index : Nat) (objects : List Members) :
    allObjects index (objects.map .object) = .valid objects := by
  induction objects generalizing index with
  | nil => rfl
  | cons members objects ih =>
    rw [List.map_cons, allObjects, ih]
    rfl

theorem asObjects_objects (objects : List Members) :
    asObjects (CodeAction.objects objects) = .valid objects :=
  allObjects_map 0 objects

end Field

/-! ## §2. An item and its members. -/

namespace Command

/-- The fields with what they are written as. -/
def values (c : Command) : List (Text × Option Json) :=
  fieldNames.zip [some (.string c.title), some (.string c.command), c.arguments.value? .array]

theorem wireMembers_eq_collect (c : Command) :
    c.wireMembers = collect fieldNames fun name => (Bindings.get? c.values name).join := by
  unfold wireMembers fieldNames
  rw [collect_cons, collect_cons, collect_cons, Field.member_eq]
  show _ = _ ++ (_ ++ (_ ++ []))
  rw [List.append_nil]
  rfl

theorem get?_wireMembers (c : Command) {name : Text} (h : name ∈ fieldNames) :
    Bindings.get? c.wireMembers name = (Bindings.get? c.values name).join := by
  rw [wireMembers_eq_collect, get?_collect, if_pos h]

/-- **A command is read from its members.** -/
theorem check_wireMembers (c : Command) : check c.wireMembers = .valid c := by
  have htitle : Field.requireText c.wireMembers (Text.ofString "title") = .valid c.title :=
    Field.requireText_eq_valid (c.get?_wireMembers (by decide))
  have hcommand : Field.requireText c.wireMembers (Text.ofString "command") = .valid c.command :=
    Field.requireText_eq_valid (c.get?_wireMembers (by decide))
  have harguments : Field.optional c.wireMembers (Text.ofString "arguments") Field.asList
      = .valid c.arguments :=
    Field.optional_eq_valid (c.get?_wireMembers (by decide)) (fun _ => rfl)
      (fun _ => Json.noConfusion)
  unfold check
  rw [htitle, hcommand, harguments]
  rfl

end Command

namespace CodeAction

/-- The fields with what they are written as. -/
def values (a : CodeAction) : List (Text × Option Json) :=
  wireNames.zip
    [some (.string a.title), a.kind.value? .string, a.diagnostics.value? objects,
     a.isPreferred.value? .bool, a.disabled.value? .object, a.edit.value? .object,
     a.command.value? fun c => .object c.wireMembers, a.data]

theorem wireMembers_eq_collect (a : CodeAction) :
    a.wireMembers = collect wireNames fun name => (Bindings.get? a.values name).join := by
  rw [wireMembers_eq]
  unfold wireNames
  simp only [collect_cons, Field.member_eq, List.append_assoc]
  show _ = _ ++ (_ ++ (_ ++ (_ ++ (_ ++ (_ ++ (_ ++ (_ ++ [])))))))
  rw [List.append_nil]
  rfl

theorem get?_wireMembers (a : CodeAction) {name : Text} (h : name ∈ wireNames) :
    Bindings.get? a.wireMembers name = (Bindings.get? a.values name).join := by
  rw [wireMembers_eq_collect, get?_collect, if_pos h]

/-- The preference is found under the name it is written with, if it is written. -/
theorem get?_preferenceName (a : CodeAction) :
    Bindings.get? a.wireMembers (preferenceName a.wireMembers) = a.isPreferred.value? .bool := by
  have hpreferred : Bindings.get? a.wireMembers preferredName = a.isPreferred.value? .bool :=
    a.get?_wireMembers (by decide)
  unfold preferenceName
  split
  · exact hpreferred
  · next hhas =>
    have habsent : Bindings.get? a.wireMembers preferredName = none :=
      Option.not_isSome_iff_eq_none.1 hhas
    have halias : Bindings.get? a.wireMembers preferredAlias = none := by
      rw [wireMembers_eq_collect, get?_collect, if_neg (by decide)]
    rw [halias, ← hpreferred, habsent]

/-- **A code action is read from its members.** -/
theorem check_wireMembers (a : CodeAction) : check a.wireMembers = .valid a := by
  have htitle : Field.requireText a.wireMembers (Text.ofString "title") = .valid a.title :=
    Field.requireText_eq_valid (a.get?_wireMembers (by decide))
  have hkind : Field.optional a.wireMembers (Text.ofString "kind") Field.asText
      = .valid a.kind :=
    Field.optional_eq_valid (a.get?_wireMembers (by decide)) (fun _ => rfl)
      (fun _ => Json.noConfusion)
  have hdiagnostics : Field.optional a.wireMembers (Text.ofString "diagnostics") Field.asObjects
      = .valid a.diagnostics :=
    Field.optional_eq_valid (a.get?_wireMembers (by decide)) Field.asObjects_objects
      (fun _ => Json.noConfusion)
  have hpreferred : Field.optional a.wireMembers (preferenceName a.wireMembers) Field.asBool
      = .valid a.isPreferred :=
    Field.optional_eq_valid a.get?_preferenceName (fun _ => rfl) (fun _ => Json.noConfusion)
  have hdisabled : Field.optional a.wireMembers (Text.ofString "disabled") Field.asObject
      = .valid a.disabled :=
    Field.optional_eq_valid (a.get?_wireMembers (by decide)) (fun _ => rfl)
      (fun _ => Json.noConfusion)
  have hedit : Field.optional a.wireMembers (Text.ofString "edit") Field.asObject
      = .valid a.edit :=
    Field.optional_eq_valid (a.get?_wireMembers (by decide)) (fun _ => rfl)
      (fun _ => Json.noConfusion)
  have hcommand : Field.optional a.wireMembers (Text.ofString "command") Command.checkValue
      = .valid a.command :=
    Field.optional_eq_valid (a.get?_wireMembers (by decide)) Command.check_wireMembers
      (fun _ => Json.noConfusion)
  have hdata : Bindings.get? a.wireMembers (Text.ofString "data") = a.data :=
    a.get?_wireMembers (by decide)
  unfold check checkWith
  rw [htitle, hkind, hdiagnostics, hpreferred, hdisabled, hedit, hcommand, hdata]
  rfl

end CodeAction

/-- **An item is read from its members**, if they are read as the shape it has. -/
theorem Item.check_wireMembers (item : Item) :
    Item.check item.variant item.wireMembers = .valid item := by
  cases item with
  | command c =>
    show (Command.check c.wireMembers).map Item.command = _
    rw [c.check_wireMembers]
    rfl
  | codeAction a =>
    show (CodeAction.check a.wireMembers).map Item.codeAction = _
    rw [a.check_wireMembers]
    rfl

/-! ## §3. The shape of what is written. -/

/-- A code action of which only the title was given, and perhaps a command that is null. -/
structure CodeAction.IsBare (a : CodeAction) : Prop where
  kind : a.kind.isPresent = false
  diagnostics : a.diagnostics.isPresent = false
  isPreferred : a.isPreferred.isPresent = false
  disabled : a.disabled.isPresent = false
  edit : a.edit.isPresent = false
  data : a.data = none
  command : ∀ c, a.command ≠ .given c

/-- The item is a bare code action. -/
def Item.IsBare : Item → Prop
  | .command _ => False
  | .codeAction a => a.IsBare

/-- A command is written without anything that makes a code action. -/
theorem Command.classify_wireMembers (c : Command) : classify c.wireMembers = .command := by
  have hnot : classify c.wireMembers ≠ .codeAction := by
    rw [Ne, Item.classify_eq_codeAction_iff, not_or]
    constructor
    · intro hname
      obtain ⟨name, hname, hget⟩ := hname
      have hfield : ∀ name ∈ codeActionNames, name ∉ fieldNames := by decide
      rw [wireMembers_eq_collect, get?_collect, if_neg (hfield name hname)] at hget
      exact hget rfl
    · intro hobject
      obtain ⟨inner, hget⟩ := hobject
      have hcommand : Bindings.get? c.wireMembers (Text.ofString "command")
          = some (.string c.command) := c.get?_wireMembers (by decide)
      rw [hcommand] at hget
      cases hget
  cases h : classify c.wireMembers with
  | command => rfl
  | codeAction => exact absurd h hnot

/-- A code action is written with something that makes one unless it is bare. -/
theorem CodeAction.classify_wireMembers_iff (a : CodeAction) :
    classify a.wireMembers = .codeAction ↔ ¬ a.IsBare := by
  have hkind : Bindings.get? a.wireMembers (Text.ofString "kind") = a.kind.value? .string :=
    a.get?_wireMembers (by decide)
  have hdiagnostics : Bindings.get? a.wireMembers (Text.ofString "diagnostics")
      = a.diagnostics.value? objects := a.get?_wireMembers (by decide)
  have hpreferred : Bindings.get? a.wireMembers (Text.ofString "isPreferred")
      = a.isPreferred.value? .bool := a.get?_wireMembers (by decide)
  have hdisabled : Bindings.get? a.wireMembers (Text.ofString "disabled")
      = a.disabled.value? .object := a.get?_wireMembers (by decide)
  have hedit : Bindings.get? a.wireMembers (Text.ofString "edit") = a.edit.value? .object :=
    a.get?_wireMembers (by decide)
  have hdata : Bindings.get? a.wireMembers (Text.ofString "data") = a.data :=
    a.get?_wireMembers (by decide)
  have hcommand : Bindings.get? a.wireMembers (Text.ofString "command")
      = a.command.value? fun c => .object c.wireMembers := a.get?_wireMembers (by decide)
  -- neither a name of code actions is there nor a command that is an object
  have hnames : (∀ name ∈ codeActionNames, Bindings.get? a.wireMembers name = none)
      ↔ a.kind.isPresent = false ∧ a.isPreferred.isPresent = false
        ∧ a.diagnostics.isPresent = false ∧ a.edit.isPresent = false
        ∧ a.disabled.isPresent = false ∧ a.data = none := by
    simp only [codeActionNames, List.forall_mem_cons, List.not_mem_nil, IsEmpty.forall_iff,
      implies_true, and_true, hkind, hdiagnostics, hpreferred, hdisabled, hedit, hdata,
      Field.value?_eq_none_iff]
  have hobject : (∃ inner, Bindings.get? a.wireMembers (Text.ofString "command")
      = some (.object inner)) ↔ ∃ c, a.command = .given c := by
    rw [hcommand]
    cases a.command <;> simp [Field.value?]
  rw [Item.classify_eq_codeAction_iff, hobject, ← not_iff_not, not_or, not_not]
  simp only [not_exists, not_and, not_not]
  rw [hnames]
  constructor
  · intro h
    obtain ⟨⟨hkind, hpreferred, hdiagnostics, hedit, hdisabled, hdata⟩, hcommand⟩ := h
    exact ⟨hkind, hdiagnostics, hpreferred, hdisabled, hedit, hdata, hcommand⟩
  · intro h
    exact ⟨⟨h.kind, h.isPreferred, h.diagnostics, h.edit, h.disabled, h.data⟩, h.command⟩

namespace Item

/-- **The shape of an item is made out from its members unless the item is bare.** -/
theorem classify_wireMembers_iff (item : Item) :
    classify item.wireMembers = item.variant ↔ ¬ item.IsBare := by
  cases item with
  | command c => exact ⟨fun _ => id, fun _ => c.classify_wireMembers⟩
  | codeAction a => exact a.classify_wireMembers_iff

theorem decode_object (members : Members) :
    decode (.object members)
      = (check (classify members) members).toExcept (DecodeFault.invalid (classify members)) :=
  rfl

theorem decode_wireMembers {item : Item} (h : ¬ item.IsBare) :
    decode (.object item.wireMembers) = .ok item := by
  refine decode_eq_ok_iff.2 ⟨_, rfl, ?_⟩
  rw [(classify_wireMembers_iff item).2 h]
  exact item.check_wireMembers

/-- A bare code action is taken for a command, and for none there is a name to run. -/
theorem decode_wireMembers_of_isBare {item : Item} (h : item.IsBare) :
    ∃ violations, decode (.object item.wireMembers) = .error (.invalid .command violations) := by
  cases item with
  | command c => exact h.elim
  | codeAction a =>
    have hvariant : classify a.wireMembers = .command := by
      cases hclassify : classify a.wireMembers with
      | command => rfl
      | codeAction => exact absurd h (a.classify_wireMembers_iff.1 hclassify)
    show ∃ violations, decode (.object a.wireMembers) = .error (.invalid .command violations)
    simp only [decode_object, hvariant, check]
    cases hcheck : Command.check a.wireMembers with
    | invalid violations => exact ⟨violations, rfl⟩
    | valid c =>
      -- a command has a string where the code action has nothing or null
      exfalso
      have hstring : Bindings.get? c.wireMembers (Text.ofString "command")
          = some (.string c.command) := c.get?_wireMembers (by decide)
      rw [Command.wireMembers_of_check hcheck, Bindings.restrict, get?_collect,
        if_pos (by decide)] at hstring
      have hcommand : Bindings.get? a.wireMembers (Text.ofString "command")
          = a.command.value? fun c => .object c.wireMembers := a.get?_wireMembers (by decide)
      rw [hcommand] at hstring
      cases hfield : a.command with
      | absent | null =>
        rw [hfield] at hstring
        cases hstring
      | given c' => exact h.command c' hfield

end Item

/-! ## §4. Items without infinities. -/

namespace Field

variable {α β : Type}

/-- The field with its value under a function. -/
def map (f : α → β) : Field α → Field β
  | .absent => .absent
  | .null => .null
  | .given a => .given (f a)

@[simp] theorem isPresent_map (f : α → β) (field : Field α) :
    (field.map f).isPresent = field.isPresent := by
  cases field <;> rfl

/-- Replacing infinities in what a field is written as is replacing them in its value. -/
theorem finiteOnlyMembers_member {f : α → β} {write : α → Json} {write' : β → Json}
    (h : ∀ a, (write a).finiteOnly = write' (f a)) (name : Text) (field : Field α) :
    Json.finiteOnlyMembers (field.member name write) = (field.map f).member name write' := by
  cases field with
  | absent => rfl
  | null => rfl
  | given a =>
    show [(name, (write a).finiteOnly)] = [(name, write' (f a))]
    rw [h a]

/-- There are none in a value that is written as it is anyway. -/
theorem finiteOnlyMembers_member_self {write : α → Json} (h : ∀ a, (write a).finiteOnly = write a)
    (name : Text) (field : Field α) :
    Json.finiteOnlyMembers (field.member name write) = field.member name write := by
  have hid : ∀ a, (write a).finiteOnly = write (id a) := h
  rw [finiteOnlyMembers_member hid]
  cases field <;> rfl

end Field

/-- The command with every infinity replaced by null. -/
def Command.finiteOnly (c : Command) : Command :=
  { c with arguments := c.arguments.map Json.finiteOnlyItems }

/-- The code action with every infinity replaced by null. -/
def CodeAction.finiteOnly (a : CodeAction) : CodeAction :=
  { a with
    diagnostics := a.diagnostics.map (List.map Json.finiteOnlyMembers)
    disabled := a.disabled.map Json.finiteOnlyMembers
    edit := a.edit.map Json.finiteOnlyMembers
    command := a.command.map Command.finiteOnly
    data := a.data.map Json.finiteOnly }

/-- The item with every infinity replaced by null. -/
def Item.finiteOnly : Item → Item
  | .command c => .command c.finiteOnly
  | .codeAction a => .codeAction a.finiteOnly

theorem Command.wireMembers_finiteOnly (c : Command) :
    c.finiteOnly.wireMembers = Json.finiteOnlyMembers c.wireMembers := by
  have harray : ∀ items, (Json.array items).finiteOnly = .array (Json.finiteOnlyItems items) :=
    fun _ => rfl
  unfold wireMembers
  rw [Json.finiteOnlyMembers_append, Field.finiteOnlyMembers_member harray]
  rfl

theorem CodeAction.wireMembers_finiteOnly (a : CodeAction) :
    a.finiteOnly.wireMembers = Json.finiteOnlyMembers a.wireMembers := by
  have hobjects : ∀ items, (objects items).finiteOnly
      = objects (items.map Json.finiteOnlyMembers) := by
    intro items
    unfold objects
    rw [Json.finiteOnly, Json.finiteOnlyItems_eq_map, List.map_map, List.map_map]
    rfl
  have hobject : ∀ members, (Json.object members).finiteOnly
      = .object (Json.finiteOnlyMembers members) := fun _ => rfl
  have hcommand : Json.finiteOnlyMembers
        (a.command.member (Text.ofString "command") fun c => .object c.wireMembers)
      = (a.command.map Command.finiteOnly).member (Text.ofString "command")
          fun c => .object c.wireMembers := by
    refine Field.finiteOnlyMembers_member (fun c => ?_) _ _
    rw [c.wireMembers_finiteOnly]
    rfl
  have hdata : Json.finiteOnlyMembers (a.data.map fun v => (Text.ofString "data", v)).toList
      = ((a.data.map Json.finiteOnly).map fun v => (Text.ofString "data", v)).toList := by
    cases a.data <;> rfl
  rw [wireMembers_eq, wireMembers_eq]
  -- strings and truth values stay, the other fields are replaced inside
  simp only [Json.finiteOnlyMembers_append, hdata, Field.finiteOnlyMembers_member hobjects,
    Field.finiteOnlyMembers_member hobject, hcommand,
    Field.finiteOnlyMembers_member_self fun t => show (Json.string t).finiteOnly = .string t from rfl,
    Field.finiteOnlyMembers_member_self fun b => show (Json.bool b).finiteOnly = .bool b from rfl]
  rfl

namespace Item

theorem wireMembers_finiteOnly (item : Item) :
    item.finiteOnly.wireMembers = Json.finiteOnlyMembers item.wireMembers := by
  cases item with
  | command c => exact c.wireMembers_finiteOnly
  | codeAction a => exact a.wireMembers_finiteOnly

/-- The same as a value. -/
theorem object_finiteOnly (item : Item) :
    Json.object item.finiteOnly.wireMembers = (Json.object item.wireMembers).finiteOnly := by
  rw [wireMembers_finiteOnly, Json.finiteOnly]

theorem variant_finiteOnly (item : Item) : item.finiteOnly.variant = item.variant := by
  cases item <;> rfl

/-- Replacing infinities gives no field and takes none away. -/
theorem givenNames_finiteOnly (item : Item) : item.finiteOnly.givenNames = item.givenNames := by
  cases item with
  | command c =>
    show c.finiteOnly.givenNames = c.givenNames
    simp [Command.givenNames, Command.finiteOnly]
  | codeAction a =>
    show a.finiteOnly.givenNames = a.givenNames
    simp [CodeAction.givenNames, CodeAction.finiteOnly]

/-- Items with the same members are one item, if they have the same shape. -/
theorem eq_of_wireMembers_eq {a b : Item} (hvariant : a.variant = b.variant)
    (h : a.wireMembers = b.wireMembers) : a = b := by
  have ha := check_wireMembers a
  rw [hvariant, h, check_wireMembers b] at ha
  exact (Checked.valid.inj ha).symm

/-- An item without infinities stays. -/
theorem finiteOnly_eq_self {item : Item} (h : Everywhere IsFinite (.object item.wireMembers)) :
    item.finiteOnly = item := by
  have hself := Json.finiteOnly_eq_self h
  rw [← object_finiteOnly] at hself
  exact eq_of_wireMembers_eq (variant_finiteOnly item) (Json.object.inj hself)

theorem finiteOnly_finiteOnly (item : Item) : item.finiteOnly.finiteOnly = item.finiteOnly := by
  refine finiteOnly_eq_self ?_
  rw [object_finiteOnly]
  exact Json.everywhere_isFinite_finiteOnly _

/-! ## §5. The text of an item. -/

/-- An item is written, without infinities, exactly if it is not nested too deep. -/
theorem toWire_eq_ok_iff {item : Item} {v : Json} :
    item.toWire = .ok v
      ↔ (Json.object item.wireMembers).depth ≤ maxWrittenNesting
        ∧ v = .object item.finiteOnly.wireMembers := by
  unfold toWire
  simp only
  rw [object_finiteOnly]
  split
  · next hdeep =>
    constructor
    · intro h
      cases h
    · exact fun h => absurd h.1 (by omega)
  · next hdeep =>
    constructor
    · exact fun h => ⟨by omega, (Except.ok.inj h).symm⟩
    · exact fun h => by rw [h.2]

/-- The values of the item can be held, no integer in them is too long to be read, and they are
not nested too deep to be written. -/
structure IsWritable (item : Item) : Prop where
  held : Everywhere IsHeld (.object item.wireMembers)
  short : Everywhere IsShort (.object item.wireMembers)
  shallow : (Json.object item.wireMembers).depth ≤ maxWrittenNesting

theorem IsWritable.toWire_eq {item : Item} (h : item.IsWritable) :
    item.toWire = .ok (.object item.finiteOnly.wireMembers) :=
  toWire_eq_ok_iff.2 ⟨h.shallow, rfl⟩

/-- An item that is writable is so without its infinities. -/
theorem IsWritable.finiteOnly {item : Item} (h : item.IsWritable) : item.finiteOnly.IsWritable where
  held := by
    rw [object_finiteOnly]
    exact Json.everywhere_isHeld_finiteOnly h.held
  short := by
    rw [object_finiteOnly]
    exact Json.everywhere_finiteOnly trivial (fun _ _ => trivial) (fun _ _ => trivial) h.short
  shallow := by
    rw [object_finiteOnly, Json.depth_finiteOnly]
    exact h.shallow

/-- The text of an object that is written is loaded as the object. -/
theorem IsWritable.load_print {item : Item} (h : item.IsWritable) :
    Json.load (.text (Json.print (.object item.wireMembers))) = .ok (.object item.wireMembers) := by
  -- far more levels are left than an item is written with
  have hshallow : (Json.object item.wireMembers).depth ≤ Json.defaultLevels :=
    Nat.le_trans h.shallow (by decide)
  exact (Json.load_print h.held).2 ⟨⟨h.short, hshallow⟩, rfl⟩

end Item

namespace Holder

/-- **An item without infinities is read back from its text** as the item it is, every field
absent, null or given as it was, unless it is a bare code action.  The text of a bare code action
is refused.  Never is an item read back as the other shape. -/
theorem ofJson_encode {item : Item} (h : item.IsWritable)
    (hfinite : Everywhere IsFinite (.object item.wireMembers)) :
    ∃ t, (of item).encode = .ok t
      ∧ (¬ item.IsBare → ofJson (.text t) = .ok (of item))
      ∧ (item.IsBare → ∃ violations,
          ofJson (.text t) = .error (.decode (.invalid .command violations)))
      ∧ ∀ k, ofJson (.text t) = .ok k → k.variant? = some item.variant := by
  have hencode : (of item).encode = .ok (Json.print (.object item.wireMembers)) := by
    show item.toWire.map Json.print = _
    rw [h.toWire_eq, Item.finiteOnly_eq_self hfinite]
    rfl
  have hread := ofJson_of_load h.load_print
  have hwhole : ¬ item.IsBare
      → ofJson (.text (Json.print (.object item.wireMembers))) = .ok (of item) := by
    intro hbare
    rw [hread, Item.decode_wireMembers hbare]
    rfl
  have hrefused : item.IsBare → ∃ violations,
      ofJson (.text (Json.print (.object item.wireMembers)))
        = .error (.decode (.invalid .command violations)) := by
    intro hbare
    obtain ⟨violations, hdecode⟩ := Item.decode_wireMembers_of_isBare hbare
    refine ⟨violations, ?_⟩
    rw [hread, hdecode]
    rfl
  refine ⟨_, hencode, hwhole, hrefused, fun k hk => ?_⟩
  by_cases hbare : item.IsBare
  · obtain ⟨violations, hdecode⟩ := hrefused hbare
    rw [hdecode] at hk
    cases hk
  · rw [hwhole hbare] at hk
    rw [← Except.ok.inj hk]
    rfl

end Holder

/-- A code action with fields that are null, and a command inside it. -/
def Item.withNulls : Item :=
  .codeAction ⟨"t", .null, .absent, .absent, .absent, .absent,
    .given ⟨"u", "c", .given [.bool true]⟩, some .null⟩

/-- It is written with four members, and read back from them. -/
theorem Holder.ofJson_encode_withNulls :
    Item.withNulls.IsWritable ∧ Everywhere IsFinite (.object Item.withNulls.wireMembers)
      ∧ ¬ Item.withNulls.IsBare
      ∧ ∃ t, (Holder.of Item.withNulls).encode = .ok t
        ∧ Holder.ofJson (.text t) = .ok (Holder.of Item.withNulls) := by
  have hwritable : Item.withNulls.IsWritable := ⟨by decide, by decide, by decide⟩
  have hfinite : Everywhere IsFinite (.object Item.withNulls.wireMembers) := by decide
  have hbare : ¬ Item.withNulls.IsBare := by
    intro h
    exact absurd h.data (by simp)
  obtain ⟨t, hencode, hread, -⟩ := Holder.ofJson_encode hwritable hfinite
  exact ⟨hwritable, hfinite, hbare, t, hencode, hread hbare⟩

end EditorWire
