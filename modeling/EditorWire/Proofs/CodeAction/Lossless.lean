/-
  EditorWire.Proofs.CodeAction.Lossless — responses that survive being written.

  A response that is decoded can be too much for the writer, in two ways.  Both are
  seen in what is left of its objects, before anything is written:

      left of an object              written           decoded again
      ─────────────────              ───────           ─────────────
      more than 255 levels deep      refused           —
      a number that is not finite    null in its place null, not the number
      neither                        as it is          the same item

  Members that are no fields count for neither, for nothing is left of them.

  Main results:
    * `exists_encodeList_iff` — which lists of items are written.
    * `map_finiteOnly_eq_self_iff` — which lists have nothing to lose when they are.
    * `encodeList_lossless_iff` — which responses come back as they were decoded.
-/
import EditorWire.Proofs.Dispatch.Reencoding
import EditorWire.Proofs.Json.Literal

namespace EditorWire

open Json (Everywhere IsHeld IsShort IsFinite everywhere_array_iff everywhere_object_iff)

/-! ## §1. What the writer asks of an object. -/

namespace Item

/-- What is left of the object is nested no deeper than is written, and has no infinities. -/
structure IsLossless (members : Members) : Prop where
  shallow : (Json.object (projection members)).depth ≤ maxWrittenNesting
  finite : Everywhere IsFinite (.object (projection members))

/-- Decoded items have on the wire what is left of their objects. -/
theorem map_wireMembers_of_check {objects : List Members} {items : List Item}
    (h : List.Forall₂ (fun members item => check (classify members) members = .valid item)
      objects items) :
    items.map wireMembers = objects.map projection := by
  induction h with
  | nil => rfl
  | cons hcheck _ ih => rw [List.map_cons, List.map_cons, wireMembers_of_check hcheck, ih]

/-- Only an item without infinities stays when they are replaced. -/
theorem finiteOnly_eq_self_iff {item : Item} :
    item.finiteOnly = item ↔ Everywhere IsFinite (.object item.wireMembers) := by
  refine ⟨fun h => ?_, finiteOnly_eq_self⟩
  rw [← h, object_finiteOnly]
  exact Json.everywhere_isFinite_finiteOnly _

theorem toWire_of_deep {item : Item}
    (h : ¬ (Json.object item.wireMembers).depth ≤ maxWrittenNesting) :
    item.toWire = .error .tooDeepToWrite := by
  unfold toWire
  exact if_pos (Nat.lt_of_not_le h)

end Item

/-! ## §2. What a list of items is written as. -/

namespace Holder

/-- An item that is nested too deep ends the list, wherever it stands. -/
theorem encodeList_of_deep {items : List Item}
    (h : ¬ ∀ item ∈ items, (Json.object item.wireMembers).depth ≤ Item.maxWrittenNesting) :
    encodeList (items.map of) = .error .tooDeepToWrite := by
  have hlist : toWireList (items.map of) = .error .tooDeepToWrite := by
    induction items with
    | nil => exact absurd (fun item hitem => absurd hitem List.not_mem_nil) h
    | cons item items ih =>
      have hitem : (of item).toWire = item.toWire := rfl
      rw [List.map_cons, toWireList, hitem]
      by_cases hfirst : (Json.object item.wireMembers).depth ≤ Item.maxWrittenNesting
      · -- it is among the others
        rw [List.forall_mem_cons, not_and] at h
        rw [Item.toWire_eq_ok_iff.2 ⟨hfirst, rfl⟩, ih (h hfirst)]
        rfl
      · rw [Item.toWire_of_deep hfirst]
  unfold encodeList
  rw [hlist]
  rfl

/-- A list of items is written exactly if none is nested too deep. -/
theorem exists_encodeList_iff (items : List Item) :
    (∃ t, encodeList (items.map of) = .ok t)
      ↔ ∀ item ∈ items, (Json.object item.wireMembers).depth ≤ Item.maxWrittenNesting := by
  refine ⟨fun h => ?_, fun h => ⟨_, encodeList_of_shallow h⟩⟩
  by_contra hdeep
  obtain ⟨t, ht⟩ := h
  rw [encodeList_of_deep hdeep] at ht
  cases ht

/-! ## §3. What is decoded again. -/

/-- Holders stay when infinities are replaced exactly if their items have none. -/
theorem map_finiteOnly_eq_self_iff (items : List Item) :
    (items.map of).map finiteOnly = items.map of
      ↔ ∀ item ∈ items, Everywhere IsFinite (.object item.wireMembers) := by
  have hof : Function.Injective of := fun _ _ h => Option.some.inj (congrArg item? h)
  rw [map_finiteOnly_of, (List.map_injective_iff.2 hof).eq_iff]
  conv_lhs => rhs; rw [← List.map_id items]
  rw [List.map_inj_left]
  exact forall₂_congr fun item _ => Item.finiteOnly_eq_self_iff

/-! ## §4. Responses. -/

/-- The items of a response, and what is left of the objects they come from. -/
theorem exists_projections_of_listOfJson {payload : Payload} {holders : List Holder}
    (h : listOfJson payload = .ok holders) :
    ∃ (objects : List Members) (items : List Item),
      Json.load payload = .ok (.array (objects.map .object)) ∧ holders = items.map of
        ∧ items.map Item.wireMembers = objects.map Item.projection := by
  obtain ⟨values, items, hload, hitems, rfl⟩ := listOfJson_eq_ok_iff.1 h
  obtain ⟨objects, rfl, hobjects⟩ := Item.exists_objects_of_decode hitems
  exact ⟨objects, items, hload, rfl, Item.map_wireMembers_of_check hobjects⟩

/-- A response with a number beyond the format under a name of no field. -/
def passedOverText : Text :=
  "[\x7b\"x\":1e400,\"title\":\"t\",\"command\":\"c\",\"arguments\":[[true]]\x7d]"

/-- Its object as it is loaded. -/
def passedOverMembers : Members :=
  [("x", .float (.infinity false)), ("title", .string "t"), ("command", .string "c"),
    ("arguments", .array [.array [.bool true]])]

/-- Its item, in which nothing is infinite. -/
def passedOverItem : Item :=
  .command ⟨"t", "c", .given [.array [.bool true]]⟩

/-- A command with an argument of arrays inside one another. -/
def nestedItem (n : Nat) : Item := .command ⟨"t", "c", .given [.nestedArray n]⟩

theorem wireMembers_nestedItem (n : Nat) :
    (nestedItem n).wireMembers
      = ([("title", .string "t"), ("command", .string "c"),
        ("arguments", .array [.nestedArray n])] : Members) := rfl

/-- Its object goes two levels deeper than the argument. -/
theorem depth_nestedItem (n : Nat) : (Json.object (nestedItem n).wireMembers).depth = n + 3 := by
  rw [wireMembers_nestedItem]
  simp [Json.depth, Json.depthMembers, Json.depthItems, Json.depth_nestedArray]

/-- What strings, arrays and its object have, all in that object has. -/
theorem everywhere_nestedItem {p : Json → Prop} (hstring : ∀ t, p (.string t))
    (harray : ∀ items, p (.array items)) {n : Nat}
    (hobject : p (.object (nestedItem n).wireMembers)) :
    Everywhere p (.object (nestedItem n).wireMembers) := by
  refine everywhere_object_iff.2 ⟨hobject, ?_⟩
  rw [wireMembers_nestedItem]
  simp only [List.forall_mem_cons, List.not_mem_nil, false_implies, implies_true, and_true]
  refine ⟨Json.everywhere_atom (hstring _) trivial, Json.everywhere_atom (hstring _) trivial, ?_⟩
  exact everywhere_array_iff.2
    ⟨harray _, List.forall_mem_singleton.2 (Json.everywhere_nestedArray harray n)⟩

/-- The response with that command. -/
def nestedText (n : Nat) : Text := Json.print (.array [.object (nestedItem n).wireMembers])

/-- Far more is read than is written. -/
theorem listOfJson_nestedText {n : Nat} (h : n ≤ 900) :
    listOfJson (.text (nestedText n)) = .ok [of (nestedItem n)] := by
  have hnames : IsHeld (.object (nestedItem n).wireMembers) :=
    show (["title", "command", "arguments"] : List Text).Nodup by decide
  have hheld : Everywhere IsHeld (.array [.object (nestedItem n).wireMembers]) :=
    everywhere_array_iff.2 ⟨trivial, List.forall_mem_singleton.2 <|
      everywhere_nestedItem (fun _ => trivial) (fun _ => trivial) hnames⟩
  have hshort : Everywhere IsShort (.array [.object (nestedItem n).wireMembers]) :=
    everywhere_array_iff.2 ⟨trivial, List.forall_mem_singleton.2 <|
      everywhere_nestedItem (fun _ => trivial) (fun _ => trivial) trivial⟩
  have hshallow : (Json.array [.object (nestedItem n).wireMembers]).depth
      ≤ Json.defaultLevels := by
    rw [Json.depth, Json.depthItems, Json.depthItems, depth_nestedItem]
    show _ ≤ 990
    omega
  rw [nestedText, listOfJson_of_load ((Json.load_print hheld).2 ⟨⟨hshort, hshallow⟩, rfl⟩)]
  rfl

theorem encodeList_nestedItem {n : Nat} (h : Item.maxWrittenNesting < n + 3) :
    encodeList [of (nestedItem n)] = .error .tooDeepToWrite := by
  have hdeep : ¬ ∀ item ∈ [nestedItem n],
      (Json.object item.wireMembers).depth ≤ Item.maxWrittenNesting := by
    rw [List.forall_mem_singleton, depth_nestedItem]
    exact Nat.not_le_of_lt h
  exact encodeList_of_deep hdeep

/-- A response with an argument beyond the format of numbers. -/
def boundlessText : Text :=
  "[\x7b\"title\":\"t\",\"command\":\"c\",\"arguments\":[1e400]\x7d]"

/-- The item of that response. -/
def boundlessItem : Item := .command ⟨"t", "c", .given [.float (.infinity false)]⟩

theorem listOfJson_boundlessText : listOfJson (.text boundlessText) = .ok [of boundlessItem] := by
  have hprinted : Json.load (.text (Json.print (.array [.object boundlessItem.wireMembers])))
      = .ok (.array [.object boundlessItem.wireMembers]) :=
    (Json.load_print (by decide)).2 ⟨⟨by decide, by decide⟩, rfl⟩
  have hload : Json.load (.text boundlessText)
      = .ok (.array [.object boundlessItem.wireMembers]) :=
    Json.load_eq_of_print hprinted (by decide +kernel)
  rw [listOfJson_of_load hload]
  rfl

end Holder

end EditorWire
