/-
  EditorWire.Proofs.CodeAction.Conditions — the conditions an object has to meet.

  The fields of a command or of a code action are conditions on the object it is
  made from, in the order of the fields.  What is inside a field comes right
  behind it:

      title, kind, diagnostics, diagnostics[0], diagnostics[1], …, command,
      command.title, …

  A check tests such a list if it gives a value where all of them hold, and
  otherwise reports each broken one, once and in order.  Checks that are put
  together test the lists of their parts, one behind the other.

  Main results:
    * `Command.tests_check`, `CodeAction.tests_check` — the checks test the conditions.
    * `Item.hasShape_iff` — the conditions say which shape the object has.
    * `Item.decode_object` — which objects are decoded, as what, and what is reported
      of the others.
-/
import EditorWire.Proofs.CodeAction.Canonical

namespace EditorWire

/-! ## §1. Conditions and the broken ones among them. -/

/-- A condition on a value, and what is reported where it is broken. -/
structure Condition where
  violation : Violation
  holds : Prop

/-- The condition seen from one level further out. -/
def Condition.under (step : Step) (c : Condition) : Condition :=
  { c with violation := c.violation.under step }

/-- The violations are those of the broken conditions: one of each, in their order. -/
inductive Broken : List Condition → List Violation → Prop where
  /-- Without conditions nothing is broken. -/
  | nil : Broken [] []
  /-- Of a condition that holds nothing is reported. -/
  | held {c : Condition} {cs : List Condition} {vs : List Violation} :
      c.holds → Broken cs vs → Broken (c :: cs) vs
  /-- A condition that does not hold is reported in front of the later ones. -/
  | broken {c : Condition} {cs : List Condition} {vs : List Violation} :
      ¬ c.holds → Broken cs vs → Broken (c :: cs) (c.violation :: vs)

theorem Broken.append {cs ds : List Condition} {vs ws : List Violation} (hcs : Broken cs vs)
    (hds : Broken ds ws) : Broken (cs ++ ds) (vs ++ ws) := by
  induction hcs with
  | nil => exact hds
  | held hc _ ih => exact .held hc ih
  | broken hc _ ih => exact .broken hc ih

theorem Broken.under {cs : List Condition} {vs : List Violation} (h : Broken cs vs) (step : Step) :
    Broken (cs.map (Condition.under step)) (vs.map (Violation.under step)) := by
  induction h with
  | nil => exact .nil
  | held hc _ ih => exact .held hc ih
  | broken hc _ ih => exact .broken hc ih

/-- Nothing is reported exactly if every condition holds. -/
theorem broken_nil_iff {cs : List Condition} : Broken cs [] ↔ ∀ c ∈ cs, c.holds := by
  constructor
  · generalize hvs : ([] : List Violation) = vs
    intro h
    induction h with
    | nil => exact fun c hc => absurd hc List.not_mem_nil
    | held hc _ ih => exact List.forall_mem_cons.2 ⟨hc, ih hvs⟩
    | broken => cases hvs
  · intro h
    induction cs with
    | nil => exact .nil
    | cons c cs ih =>
      rw [List.forall_mem_cons] at h
      exact .held h.1 (ih h.2)

/-! ## §2. Checks that test conditions. -/

namespace Checked

variable {α β : Type}

/-- The check gives a value where all conditions hold, and reports those that are broken. -/
structure Tests (a : Checked α) (cs : List Condition) : Prop where
  broken : Broken cs a.violations
  valid : (∀ c ∈ cs, c.holds) → ∃ x, a = .valid x

variable {a : Checked α} {f : Checked (α → β)} {cs ds : List Condition}

theorem Tests.exists_valid_iff (h : a.Tests cs) : (∃ x, a = .valid x) ↔ ∀ c ∈ cs, c.holds := by
  constructor
  · rintro ⟨x, rfl⟩
    exact broken_nil_iff.1 h.broken
  · exact h.valid

theorem tests_valid (x : α) : (valid x).Tests [] := ⟨.nil, fun _ => ⟨x, rfl⟩⟩

theorem Tests.map (h : a.Tests cs) (g : α → β) : (a.map g).Tests cs where
  broken := by
    rw [violations_map]
    exact h.broken
  valid := fun hall => by
    obtain ⟨x, rfl⟩ := h.valid hall
    exact ⟨g x, rfl⟩

theorem Tests.apply (hf : f.Tests cs) (ha : a.Tests ds) : (f.apply a).Tests (cs ++ ds) where
  broken := by
    rw [violations_apply]
    exact hf.broken.append ha.broken
  valid := fun hall => by
    rw [List.forall_mem_append] at hall
    obtain ⟨g, rfl⟩ := hf.valid hall.1
    obtain ⟨x, rfl⟩ := ha.valid hall.2
    exact ⟨g x, rfl⟩

theorem Tests.under (h : a.Tests cs) (step : Step) :
    (a.under step).Tests (cs.map (Condition.under step)) where
  broken := by
    rw [violations_under]
    exact h.broken.under step
  valid := fun hall => by
    rw [List.forall_mem_map] at hall
    obtain ⟨x, rfl⟩ := h.valid hall
    exact ⟨x, rfl⟩

/-- A check of one condition. -/
theorem tests_of_iff {e : Expectation} {p : Prop} (hvalid : p → ∃ x, a = .valid x)
    (hexpected : ¬ p → a = expected e) : a.Tests [⟨⟨[], e⟩, p⟩] := by
  by_cases hp : p
  · obtain ⟨x, rfl⟩ := hvalid hp
    exact ⟨.held hp .nil, fun _ => ⟨x, rfl⟩⟩
  · rw [hexpected hp]
    exact ⟨.broken hp .nil, fun hall => absurd (hall _ List.mem_cons_self) hp⟩

/-- A condition that holds may stand in front. -/
theorem Tests.cons_of_holds (h : a.Tests cs) {c : Condition} (hc : c.holds) :
    a.Tests (c :: cs) where
  broken := .held hc h.broken
  valid := fun hall => h.valid (List.forall_mem_cons.1 hall).2

end Checked

/-! ## §3. Single fields. -/

namespace Json

/-- The value is a string. -/
def IsString (v : Json) : Prop := ∃ t, v = .string t

/-- The value is a truth value. -/
def IsBool (v : Json) : Prop := ∃ b, v = .bool b

/-- The value is an array. -/
def IsArray (v : Json) : Prop := ∃ items, v = .array items

/-- The value is an object. -/
def IsObject (v : Json) : Prop := ∃ members, v = .object members

end Json

open Json (IsString IsBool IsArray IsObject)

/-- The member of the name, if there is one, is null or has the property. -/
def IsOptional (members : Members) (name : Text) (p : Json → Prop) : Prop :=
  ∀ v, Bindings.get? members name = some v → v = .null ∨ p v

namespace Condition

/-- The conditions on a required string: it is there, and what is there is a string. -/
def ofRequired (members : Members) (name : Text) : List Condition :=
  [⟨⟨[.name name], .present⟩, Bindings.get? members name ≠ none⟩,
   ⟨⟨[.name name], .string⟩, ∀ v, Bindings.get? members name = some v → IsString v⟩]

/-- The condition on an optional member. -/
def ofOptional (members : Members) (name : Text) (e : Expectation) (p : Json → Prop) : Condition :=
  ⟨⟨[.name name], e⟩, IsOptional members name p⟩

/-- The conditions on what is inside a member, if there is one. -/
def inside (members : Members) (name : Text) (inner : Json → List Condition) : List Condition :=
  match Bindings.get? members name with
  | none => []
  | some v => (inner v).map (under (.name name))

/-- The conditions on values that have to be objects; `index` is that of the first. -/
def ofItems (index : Nat) : List Json → List Condition
  | [] => []
  | v :: rest => ⟨⟨[.index index], .dictionary⟩, IsObject v⟩ :: ofItems (index + 1) rest

/-- The conditions on the items of an array that has to be one of objects. -/
def ofObjects : Json → List Condition
  | .array items => ofItems 0 items
  | _ => []

end Condition

namespace Field

variable {α : Type} (members : Members) (name : Text)

theorem tests_requireText :
    (requireText members name).Tests (Condition.ofRequired members name) := by
  unfold requireText Condition.ofRequired
  cases hget : Bindings.get? members name with
  | none =>
    refine ⟨.broken (by simp) (.held (by simp) .nil), fun hall => ?_⟩
    exact absurd rfl (hall _ List.mem_cons_self)
  | some v =>
    have hthere : some v ≠ none := Option.some_ne_none v
    have hstring : (∀ w, some v = some w → IsString w) ↔ IsString v := by simp
    rw [propext hstring]
    -- it is there, so what is left is one condition
    refine Checked.Tests.cons_of_holds ?_ hthere
    refine (Checked.tests_of_iff (e := .string) ?_ fun hv => ?_).under (.name name)
    · rintro ⟨t, rfl⟩
      exact ⟨t, rfl⟩
    · split
      · next heq => exact absurd ⟨_, Option.some.inj heq⟩ hv
      · rfl
      · next heq => cases heq

theorem tests_asText (v : Json) : (asText v).Tests [⟨⟨[], .string⟩, IsString v⟩] := by
  refine Checked.tests_of_iff ?_ fun hv => ?_
  · rintro ⟨t, rfl⟩
    exact ⟨t, rfl⟩
  · unfold asText
    split
    · exact absurd ⟨_, rfl⟩ hv
    · rfl

theorem tests_asBool (v : Json) : (asBool v).Tests [⟨⟨[], .boolean⟩, IsBool v⟩] := by
  refine Checked.tests_of_iff ?_ fun hv => ?_
  · rintro ⟨b, rfl⟩
    exact ⟨b, rfl⟩
  · unfold asBool
    split
    · exact absurd ⟨_, rfl⟩ hv
    · rfl

theorem tests_asList (v : Json) : (asList v).Tests [⟨⟨[], .list⟩, IsArray v⟩] := by
  refine Checked.tests_of_iff ?_ fun hv => ?_
  · rintro ⟨items, rfl⟩
    exact ⟨items, rfl⟩
  · unfold asList
    split
    · exact absurd ⟨_, rfl⟩ hv
    · rfl

theorem tests_asObject (v : Json) : (asObject v).Tests [⟨⟨[], .dictionary⟩, IsObject v⟩] := by
  refine Checked.tests_of_iff ?_ fun hv => ?_
  · rintro ⟨members, rfl⟩
    exact ⟨members, rfl⟩
  · unfold asObject
    split
    · exact absurd ⟨_, rfl⟩ hv
    · rfl

/-- The items are tested one by one, each with its index. -/
theorem tests_allObjects (index : Nat) (items : List Json) :
    (allObjects index items).Tests (Condition.ofItems index items) := by
  induction items generalizing index with
  | nil => exact Checked.tests_valid []
  | cons v items ih =>
    exact (((tests_asObject v).under (.index index)).map List.cons).apply (ih (index + 1))

theorem tests_asObjects (v : Json) :
    (asObjects v).Tests (⟨⟨[], .list⟩, IsArray v⟩ :: Condition.ofObjects v) := by
  unfold asObjects
  split
  · next items => exact (tests_allObjects 0 items).cons_of_holds ⟨items, rfl⟩
  · next harray =>
    have hinside : Condition.ofObjects v = [] := by
      unfold Condition.ofObjects
      split
      · next items => exact absurd rfl (harray items)
      · rfl
    rw [hinside]
    refine Checked.tests_of_iff ?_ fun _ => rfl
    rintro ⟨items, rfl⟩
    exact absurd rfl (harray items)

/-- An optional field is tested as the value it has, unless that is null. -/
theorem tests_optional {check : Json → Checked α} {e : Expectation} {p : Json → Prop}
    {inner : Json → List Condition} (hnull : inner .null = [])
    (h : ∀ v, (check v).Tests (⟨⟨[], e⟩, p v⟩ :: inner v)) :
    (optional members name check).Tests
      (Condition.ofOptional members name e p :: Condition.inside members name inner) := by
  unfold optional Condition.inside Condition.ofOptional IsOptional
  split
  · next hget =>
    rw [hget]
    exact (Checked.tests_valid _).cons_of_holds (by simp)
  · next hget =>
    rw [hget]
    simp only [hnull, List.map_nil]
    refine (Checked.tests_valid _).cons_of_holds fun v hv => ?_
    exact .inl (Option.some.inj hv).symm
  · next v hne hget =>
    have hhere : (∀ w, some v = some w → w = .null ∨ p w) ↔ p v := by
      constructor
      · intro hall
        exact (hall v rfl).resolve_left hne
      · intro hv w hw
        rw [← Option.some.inj hw]
        exact .inr hv
    rw [hget, propext hhere]
    exact ((h v).under (.name name)).map given

/-- An optional field with nothing to look into. -/
theorem tests_optional_plain {check : Json → Checked α} {e : Expectation} {p : Json → Prop}
    (h : ∀ v, (check v).Tests [⟨⟨[], e⟩, p v⟩]) :
    (optional members name check).Tests [Condition.ofOptional members name e p] := by
  have hinside : Condition.inside members name (fun _ => []) = [] := by
    unfold Condition.inside
    split <;> rfl
  have htests : (optional members name check).Tests
      (Condition.ofOptional members name e p :: Condition.inside members name fun _ => []) :=
    tests_optional members name rfl h
  rw [hinside] at htests
  exact htests

end Field

/-! ## §4. Whole items. -/

/-- The conditions on the object of a command. -/
def Command.conditions (members : Members) : List Condition :=
  Condition.ofRequired members "title"
    ++ Condition.ofRequired members "command"
    ++ [Condition.ofOptional members "arguments" .list IsArray]

/-- The conditions on the object that a command inside a code action has to be. -/
def Command.conditionsInside : Json → List Condition
  | .object members => conditions members
  | _ => []

/-- The conditions on the object of a code action. -/
def CodeAction.conditions (members : Members) : List Condition :=
  Condition.ofRequired members "title"
    ++ [Condition.ofOptional members "kind" .string IsString]
    ++ (Condition.ofOptional members "diagnostics" .list IsArray
      :: Condition.inside members "diagnostics" Condition.ofObjects)
    ++ [Condition.ofOptional members (preferenceName members) .boolean IsBool]
    ++ [Condition.ofOptional members "disabled" .dictionary IsObject]
    ++ [Condition.ofOptional members "edit" .dictionary IsObject]
    ++ (Condition.ofOptional members "command" .command IsObject
      :: Condition.inside members "command" Command.conditionsInside)

/-- **The check of a command tests the conditions on its object.** -/
theorem Command.tests_check (members : Members) :
    (check members).Tests (conditions members) :=
  (((Field.tests_requireText members "title").map Command.mk).apply
    (Field.tests_requireText members "command")).apply
    (Field.tests_optional_plain members "arguments" Field.tests_asList)

theorem Command.tests_checkValue (v : Json) :
    (checkValue v).Tests (⟨⟨[], .command⟩, IsObject v⟩ :: conditionsInside v) := by
  unfold checkValue
  split
  · next members => exact (tests_check members).cons_of_holds ⟨members, rfl⟩
  · next hobject =>
    have hinside : conditionsInside v = [] := by
      unfold conditionsInside
      split
      · next members => exact absurd rfl (hobject members)
      · rfl
    rw [hinside]
    refine Checked.tests_of_iff ?_ fun _ => rfl
    rintro ⟨members, rfl⟩
    exact absurd rfl (hobject members)

/-- **The check of a code action tests the conditions on its object.** -/
theorem CodeAction.tests_check (members : Members) :
    (check members).Tests (conditions members) := by
  have hkind := Field.tests_optional_plain members "kind" Field.tests_asText
  have hdiagnostics := Field.tests_optional members "diagnostics" rfl Field.tests_asObjects
  have hpreferred := Field.tests_optional_plain members (preferenceName members) Field.tests_asBool
  have hdisabled := Field.tests_optional_plain members "disabled" Field.tests_asObject
  have hedit := Field.tests_optional_plain members "edit" Field.tests_asObject
  have hcommand := Field.tests_optional members "command" rfl Command.tests_checkValue
  -- the data is any value
  have hdata := Checked.tests_valid (Bindings.get? members (Text.ofString "data"))
  have hall := ((((((((Field.tests_requireText members "title").map CodeAction.mk).apply
    hkind).apply hdiagnostics).apply hpreferred).apply hdisabled).apply hedit).apply
    hcommand).apply hdata
  rw [List.append_nil] at hall
  exact hall

/-! ## §5. The two shapes. -/

/-- The required string of the name is there. -/
def IsRequired (members : Members) (name : Text) : Prop :=
  ∃ t, Bindings.get? members name = some (.string t)

/-- The object is that of a command. -/
structure Command.IsShape (members : Members) : Prop where
  title : IsRequired members "title"
  command : IsRequired members "command"
  arguments : IsOptional members "arguments" IsArray

/-- The object is that of a code action; the name of the preference in memory counts where that
on the wire is not there. -/
structure CodeAction.IsShape (members : Members) : Prop where
  title : IsRequired members "title"
  kind : IsOptional members "kind" IsString
  diagnostics : IsOptional members "diagnostics" fun v =>
    ∃ objects : List Members, v = .array (objects.map .object)
  isPreferred : IsOptional members "isPreferred" IsBool
  is_preferred : Bindings.get? members "isPreferred" = none →
    IsOptional members "is_preferred" IsBool
  disabled : IsOptional members "disabled" IsObject
  edit : IsOptional members "edit" IsObject
  command : IsOptional members "command" fun v =>
    ∃ inner, v = .object inner ∧ Command.IsShape inner

/-- The object has the shape it is read as. -/
def Item.HasShape (variant : Variant) (members : Members) : Prop :=
  match variant with
  | .command => Command.IsShape members
  | .codeAction => CodeAction.IsShape members

/-- The conditions on an object that is read as a shape. -/
def Item.conditions (variant : Variant) (members : Members) : List Condition :=
  match variant with
  | .command => Command.conditions members
  | .codeAction => CodeAction.conditions members

namespace Condition

variable {members : Members} {name : Text}

theorem forall_ofRequired_iff :
    (∀ c ∈ ofRequired members name, c.holds) ↔ IsRequired members name := by
  unfold ofRequired IsRequired
  simp only [List.forall_mem_cons, List.not_mem_nil, false_implies, implies_true, and_true]
  constructor
  · rintro ⟨hthere, hstring⟩
    obtain ⟨v, hv⟩ := Option.ne_none_iff_exists'.1 hthere
    obtain ⟨t, rfl⟩ := hstring v hv
    exact ⟨t, hv⟩
  · rintro ⟨t, ht⟩
    rw [ht]
    exact ⟨Option.some_ne_none _, fun v hv => ⟨t, (Option.some.inj hv).symm⟩⟩

theorem forall_ofItems_iff {index : Nat} {items : List Json} :
    (∀ c ∈ ofItems index items, c.holds) ↔ ∃ objects : List Members, items = objects.map .object := by
  induction items generalizing index with
  | nil => exact ⟨fun _ => ⟨[], rfl⟩, fun _ c hc => absurd hc List.not_mem_nil⟩
  | cons v items ih =>
    rw [ofItems, List.forall_mem_cons, ih]
    constructor
    · rintro ⟨⟨members, rfl⟩, objects, rfl⟩
      exact ⟨members :: objects, rfl⟩
    · rintro ⟨objects, heq⟩
      cases objects with
      | nil => cases heq
      | cons members objects =>
        obtain ⟨rfl, rfl⟩ := List.cons.inj heq
        exact ⟨⟨members, rfl⟩, objects, rfl⟩

theorem forall_inside_iff {inner : Json → List Condition} :
    (∀ c ∈ inside members name inner, c.holds)
      ↔ ∀ v, Bindings.get? members name = some v → ∀ c ∈ inner v, c.holds := by
  unfold inside
  split
  · next hget => simp [hget]
  · next v hget =>
    rw [hget, List.forall_mem_map]
    exact ⟨fun h w hw => Option.some.inj hw ▸ h, fun h => h v rfl⟩

/-- An optional member and what is inside it, taken together. -/
theorem forall_ofOptional_inside_iff {e : Expectation} {p q : Json → Prop}
    {inner : Json → List Condition} (hnull : inner .null = [])
    (h : ∀ v, q v ↔ p v ∧ ∀ c ∈ inner v, c.holds) :
    (∀ c ∈ ofOptional members name e p :: inside members name inner, c.holds)
      ↔ IsOptional members name q := by
  rw [List.forall_mem_cons, forall_inside_iff]
  constructor
  · rintro ⟨hp, hinner⟩ v hv
    rcases hp v hv with hv' | hp
    · exact .inl hv'
    · exact .inr ((h v).2 ⟨hp, hinner v hv⟩)
  · intro hq
    refine ⟨fun v hv => (hq v hv).imp_right fun hqv => ((h v).1 hqv).1, fun v hv => ?_⟩
    rcases hq v hv with rfl | hqv
    · rw [hnull]
      exact fun c hc => absurd hc List.not_mem_nil
    · exact ((h v).1 hqv).2

end Condition

theorem Command.isShape_iff {members : Members} :
    IsShape members ↔ ∀ c ∈ conditions members, c.holds := by
  unfold conditions
  rw [List.forall_mem_append, List.forall_mem_append, Condition.forall_ofRequired_iff,
    Condition.forall_ofRequired_iff, List.forall_mem_singleton]
  exact ⟨fun h => ⟨⟨h.title, h.command⟩, h.arguments⟩, fun h => ⟨h.1.1, h.1.2, h.2⟩⟩

namespace CodeAction

variable {members : Members}

theorem isOptional_preferenceName_iff {p : Json → Prop} :
    IsOptional members (preferenceName members) p
      ↔ IsOptional members "isPreferred" p
        ∧ (Bindings.get? members "isPreferred" = none → IsOptional members "is_preferred" p) := by
  unfold preferenceName Bindings.has
  cases hget : Bindings.get? members preferredName with
  | none =>
    have hnone : IsOptional members "isPreferred" p := fun v hv => absurd (hget.symm.trans hv) (by simp)
    exact ⟨fun h => ⟨hnone, fun _ => h⟩, fun h => h.2 hget⟩
  | some v =>
    refine ⟨fun h => ⟨h, fun hnone => absurd (hget.symm.trans hnone) (by simp)⟩, fun h => h.1⟩

/-- An array of objects meets the conditions on arrays and on what is inside them. -/
theorem isObjects_iff (v : Json) :
    (∃ objects : List Members, v = .array (objects.map .object))
      ↔ IsArray v ∧ ∀ c ∈ Condition.ofObjects v, c.holds := by
  constructor
  · rintro ⟨objects, rfl⟩
    exact ⟨⟨_, rfl⟩, Condition.forall_ofItems_iff.2 ⟨objects, rfl⟩⟩
  · rintro ⟨⟨items, rfl⟩, hitems⟩
    obtain ⟨objects, rfl⟩ := Condition.forall_ofItems_iff.1 hitems
    exact ⟨objects, rfl⟩

/-- The object of a command meets the conditions on objects and on what is inside them. -/
theorem isCommand_iff (v : Json) :
    (∃ inner, v = .object inner ∧ Command.IsShape inner)
      ↔ IsObject v ∧ ∀ c ∈ Command.conditionsInside v, c.holds := by
  constructor
  · rintro ⟨inner, rfl, hshape⟩
    exact ⟨⟨inner, rfl⟩, Command.isShape_iff.1 hshape⟩
  · rintro ⟨⟨inner, rfl⟩, hinner⟩
    exact ⟨inner, rfl, Command.isShape_iff.2 hinner⟩

theorem isShape_iff : IsShape members ↔ ∀ c ∈ conditions members, c.holds := by
  unfold conditions
  simp only [List.forall_mem_append, Condition.forall_ofRequired_iff, List.forall_mem_singleton,
    Condition.forall_ofOptional_inside_iff rfl isObjects_iff,
    Condition.forall_ofOptional_inside_iff rfl isCommand_iff]
  show _ ↔ (((((_ ∧ IsOptional members "kind" IsString) ∧ _)
    ∧ IsOptional members (preferenceName members) IsBool)
    ∧ IsOptional members "disabled" IsObject) ∧ IsOptional members "edit" IsObject) ∧ _
  rw [isOptional_preferenceName_iff]
  constructor
  · intro h
    exact ⟨⟨⟨⟨⟨⟨h.title, h.kind⟩, h.diagnostics⟩, h.isPreferred, h.is_preferred⟩, h.disabled⟩,
      h.edit⟩, h.command⟩
  · rintro ⟨⟨⟨⟨⟨⟨htitle, hkind⟩, hdiagnostics⟩, hpreferred, halias⟩, hdisabled⟩, hedit⟩, hcommand⟩
    exact ⟨htitle, hkind, hdiagnostics, hpreferred, halias, hdisabled, hedit, hcommand⟩

end CodeAction

/-! ## §6. Decoding. -/

namespace Item

variable {variant : Variant} {members : Members}

/-- **An object has a shape exactly if it meets the conditions.** -/
theorem hasShape_iff : HasShape variant members ↔ ∀ c ∈ conditions variant members, c.holds := by
  cases variant with
  | command => exact Command.isShape_iff
  | codeAction => exact CodeAction.isShape_iff

theorem tests_check (variant : Variant) (members : Members) :
    (check variant members).Tests (conditions variant members) := by
  cases variant with
  | command => exact (Command.tests_check members).map Item.command
  | codeAction => exact (CodeAction.tests_check members).map Item.codeAction

/-- **Which objects are decoded, as what, and what is reported of the others.**  An object is read
as a code action if it has a name that only code actions have or its command is an object, and as a
command otherwise.  It is decoded if it has that shape, and else every condition that is broken is
reported, once and in order; it is not tried as the other shape. -/
theorem decode_iff_hasShape (members : Members) :
    (classify members = .codeAction
      ↔ (∃ name ∈ (["kind", "isPreferred", "diagnostics", "edit", "disabled", "data"] : List Text),
          Bindings.get? members name ≠ none)
        ∨ ∃ inner, Bindings.get? members "command" = some (.object inner))
    ∧ ((∃ item, decode (.object members) = .ok item) ↔ HasShape (classify members) members)
    ∧ (∀ item, decode (.object members) = .ok item → item.variant = classify members)
    ∧ ∀ fault, decode (.object members) = .error fault →
      ∃ violations, fault = .invalid (classify members) violations
        ∧ Broken (conditions (classify members) members) violations := by
  have htests := tests_check (classify members) members
  refine ⟨classify_eq_codeAction_iff, ?_, fun item h => ?_, fun fault h => ?_⟩
  · rw [hasShape_iff, ← htests.exists_valid_iff]
    exact exists_congr fun item => Checked.toExcept_eq_ok_iff
  · exact variant_of_check (Checked.toExcept_eq_ok_iff.1 h)
  · have hbroken := htests.broken
    cases hcheck : check (classify members) members with
    | valid item =>
      rw [decode, hcheck] at h
      cases h
    | invalid violations =>
      rw [decode, hcheck] at h
      rw [hcheck] at hbroken
      exact ⟨violations, (Except.error.inj h).symm, hbroken⟩

-- 1 is no truth value, and the broken conditions inside the command come last
example : decode (.object
      [("command", .object [("command", .int 3), ("arguments", .null)]), ("isPreferred", .int 1),
       ("diagnostics", .array [.object [], .null]), ("kind", .null)])
    = .error (.invalid .codeAction
      [⟨[.name "title"], .present⟩, ⟨[.name "diagnostics", .index 1], .dictionary⟩,
       ⟨[.name "isPreferred"], .boolean⟩, ⟨[.name "command", .name "title"], .present⟩,
       ⟨[.name "command", .name "command"], .string⟩]) := rfl

end Item

end EditorWire
