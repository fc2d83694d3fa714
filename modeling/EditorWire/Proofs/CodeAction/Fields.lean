/-
  EditorWire.Proofs.CodeAction.Fields — fields whose check succeeds.

  A check either gives a value or collects violations.  When it gives a value,
  every part of it did, and what a field is written as again is the value it was
  read from:

      write a  =  cut v          for every value v that is checked to be a

  where `cut` is what writing may leave out of a value.
-/
import EditorWire.CodeAction.Decode

namespace EditorWire

/-! ## §1. Parts of a check. -/

namespace Checked

variable {α β : Type}

theorem map_eq_valid_iff {f : α → β} {a : Checked α} {b : β} :
    a.map f = .valid b ↔ ∃ x, a = .valid x ∧ f x = b := by
  cases a <;> simp [map]

theorem apply_eq_valid_iff {f : Checked (α → β)} {a : Checked α} {b : β} :
    f.apply a = .valid b ↔ ∃ g x, f = .valid g ∧ a = .valid x ∧ g x = b := by
  cases f <;> cases a <;> simp [apply]

theorem under_eq_valid_iff {step : Step} {a : Checked α} {x : α} :
    a.under step = .valid x ↔ a = .valid x := by
  cases a <;> simp [under]

theorem toExcept_eq_ok_iff {ε : Type} {fault : List Violation → ε} {a : Checked α} {x : α} :
    a.toExcept fault = .ok x ↔ a = .valid x := by
  cases a <;> simp [toExcept]

theorem violations_map (f : α → β) (a : Checked α) : (a.map f).violations = a.violations := by
  cases a <;> rfl

end Checked

/-! ## §2. Single fields. -/

namespace Field

variable {α : Type}

/-- A required string is there. -/
theorem get?_of_requireText {members : Members} {name t : Text}
    (h : requireText members name = .valid t) : Bindings.get? members name = some (.string t) := by
  unfold requireText at h
  rw [Checked.under_eq_valid_iff] at h
  split at h
  · next heq =>
    rw [heq, Checked.valid.inj h]
  · cases h
  · cases h

/-- An optional field is written as what it was read from, if its values are. -/
theorem member_of_optional {members : Members} {source name : Text} {check : Json → Checked α}
    {write : α → Json} (cut : Json → Json) {field : Field α} (hnull : cut .null = .null)
    (hwrite : ∀ v a, check v = .valid a → write a = cut v)
    (h : optional members source check = .valid field) :
    field.member name write
      = (((Bindings.get? members source).map cut).map fun v => (name, v)).toList := by
  unfold optional at h
  -- no member, the member null, or a member that is checked
  split at h
  · next heq =>
    rw [heq, ← Checked.valid.inj h]
    rfl
  · next heq =>
    rw [heq, ← Checked.valid.inj h]
    show [(name, Json.null)] = [(name, cut .null)]
    rw [hnull]
  · next v _ heq =>
    obtain ⟨a, ha, rfl⟩ := Checked.map_eq_valid_iff.1 h
    rw [heq]
    show [(name, write a)] = [(name, cut v)]
    rw [hwrite v a (Checked.under_eq_valid_iff.1 ha)]

theorem eq_of_asText {v : Json} {t : Text} (h : asText v = .valid t) : Json.string t = v := by
  unfold asText at h
  split at h
  · rw [Checked.valid.inj h]
  · cases h

theorem eq_of_asBool {v : Json} {b : Bool} (h : asBool v = .valid b) : Json.bool b = v := by
  unfold asBool at h
  split at h
  · rw [Checked.valid.inj h]
  · cases h

theorem eq_of_asList {v : Json} {items : List Json} (h : asList v = .valid items) :
    Json.array items = v := by
  unfold asList at h
  split at h
  · rw [Checked.valid.inj h]
  · cases h

theorem eq_of_asObject {v : Json} {members : Members} (h : asObject v = .valid members) :
    Json.object members = v := by
  unfold asObject at h
  split at h
  · rw [Checked.valid.inj h]
  · cases h

theorem eq_of_allObjects {index : Nat} {values : List Json} {objects : List Members}
    (h : allObjects index values = .valid objects) : objects.map Json.object = values := by
  induction values generalizing index objects with
  | nil =>
    rw [← Checked.valid.inj h]
    rfl
  | cons v values ih =>
    unfold allObjects at h
    obtain ⟨g, rest, hg, hrest, rfl⟩ := Checked.apply_eq_valid_iff.1 h
    obtain ⟨members, hmembers, rfl⟩ := Checked.map_eq_valid_iff.1 hg
    rw [List.map_cons, eq_of_asObject (Checked.under_eq_valid_iff.1 hmembers), ih hrest]

theorem eq_of_asObjects {v : Json} {objects : List Members} (h : asObjects v = .valid objects) :
    CodeAction.objects objects = v := by
  unfold asObjects at h
  split at h
  · next items =>
    unfold CodeAction.objects
    rw [eq_of_allObjects h]
  · cases h

end Field

end EditorWire
