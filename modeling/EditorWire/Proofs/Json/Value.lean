/-
  EditorWire.Proofs.Json.Value — values and what occurs in them.

  `Within w v` holds when `w` is the value `v` or occurs in it at some depth, and
  `Everywhere p v` when all that occurs in `v` has the property `p`.  Two such
  properties matter here: that of a value a program can hold, and that of a
  number that is finite.

  Main results:
    * `Json.induction` — a property that passes from items and members to arrays
      and objects holds of every value.
    * `everywhere_isFinite_finiteOnly`, `finiteOnly_eq_self` — a value with its
      infinities replaced has none, and a value without any is kept.
-/
import EditorWire.Json.Printer
import EditorWire.Proofs.Result

namespace EditorWire.Json

/-! ## §1. Induction. -/

/-- A property of the items of an array and of the members of an object passes to these, and so
holds of every value. -/
@[elab_as_elim]
theorem induction {motive : Json → Prop} (null : motive .null) (bool : ∀ b, motive (.bool b))
    (int : ∀ i, motive (.int i)) (float : ∀ x, motive (.float x))
    (string : ∀ t, motive (.string t))
    (array : ∀ items, (∀ v ∈ items, motive v) → motive (.array items))
    (object : ∀ members : Members, (∀ m ∈ members, motive m.2) → motive (.object members)) :
    ∀ v, motive v
  | .null => null
  | .bool b => bool b
  | .int i => int i
  | .float x => float x
  | .string t => string t
  | .array items => array items fun v hv =>
      have : sizeOf v < sizeOf items := List.sizeOf_lt_of_mem hv
      induction null bool int float string array object v
  | .object members => object members fun m hm =>
      have : sizeOf m < sizeOf members := List.sizeOf_lt_of_mem hm
      have : sizeOf m.2 < sizeOf m := by
        obtain ⟨name, v⟩ := m
        rw [Prod.mk.sizeOf_spec]
        show sizeOf v < _
        omega
      induction null bool int float string array object m.2
termination_by v => sizeOf v
decreasing_by
  · rw [Json.array.sizeOf_spec]
    omega
  · rw [Json.object.sizeOf_spec]
    omega

/-! ## §2. Loops over items and members. -/

theorem printItems_eq_map (items : List Json) : printItems items = items.map print := by
  induction items with
  | nil => rw [printItems, List.map_nil]
  | cons v items ih => rw [printItems, ih, List.map_cons]

theorem printMembers_eq_map (members : Members) :
    printMembers members = members.map fun m => printString m.1 ++ Ascii.colon :: print m.2 := by
  induction members with
  | nil => rw [printMembers, List.map_nil]
  | cons m members ih => rw [printMembers, ih, List.map_cons]

theorem finiteOnlyItems_eq_map (items : List Json) :
    finiteOnlyItems items = items.map finiteOnly := by
  induction items with
  | nil => rw [finiteOnlyItems, List.map_nil]
  | cons v items ih => rw [finiteOnlyItems, ih, List.map_cons]

theorem finiteOnlyMembers_eq_map (members : Members) :
    finiteOnlyMembers members = members.map fun m => (m.1, finiteOnly m.2) := by
  induction members with
  | nil => rw [finiteOnlyMembers, List.map_nil]
  | cons m members ih => rw [finiteOnlyMembers, ih, List.map_cons]

theorem finiteOnlyMembers_append (members others : Members) :
    finiteOnlyMembers (members ++ others) = finiteOnlyMembers members ++ finiteOnlyMembers others := by
  simp only [finiteOnlyMembers_eq_map, List.map_append]

theorem keys_finiteOnlyMembers (members : Members) :
    Bindings.keys (finiteOnlyMembers members) = Bindings.keys members := by
  rw [finiteOnlyMembers_eq_map, Bindings.keys, Bindings.keys, List.map_map]
  rfl

theorem depthItems_le_iff {items : List Json} {n : Nat} :
    depthItems items ≤ n ↔ ∀ v ∈ items, depth v ≤ n := by
  induction items with
  | nil => simp [depthItems]
  | cons v items ih =>
    rw [depthItems, Nat.max_le, ih, List.forall_mem_cons]

theorem depthMembers_le_iff {members : Members} {n : Nat} :
    depthMembers members ≤ n ↔ ∀ m ∈ members, depth m.2 ≤ n := by
  induction members with
  | nil => simp [depthMembers]
  | cons m members ih =>
    rw [depthMembers, Nat.max_le, ih, List.forall_mem_cons]

/-! ## §3. What occurs in a value. -/

/-- `w` occurs in a value. -/
inductive Within (w : Json) : Json → Prop where
  /-- As the value itself. -/
  | here : Within w w
  /-- In an item of the array. -/
  | item {items : List Json} {v : Json} (hv : v ∈ items) (h : Within w v) : Within w (.array items)
  /-- In the value of a member of the object. -/
  | member {members : Members} {m : Text × Json} (hm : m ∈ members) (h : Within w m.2) :
      Within w (.object members)

/-- All that occurs in a value has the property. -/
def Everywhere (p : Json → Prop) (v : Json) : Prop := ∀ w, Within w v → p w

theorem Everywhere.here {p : Json → Prop} {v : Json} (h : Everywhere p v) : p v := h v .here

theorem everywhere_array_iff {p : Json → Prop} {items : List Json} :
    Everywhere p (.array items) ↔ p (.array items) ∧ ∀ v ∈ items, Everywhere p v := by
  constructor
  · intro h
    exact ⟨h.here, fun v hv w hw => h w (.item hv hw)⟩
  · rintro ⟨hhere, hitems⟩ w hw
    cases hw with
    | here => exact hhere
    | item hv hw => exact hitems _ hv w hw

theorem everywhere_object_iff {p : Json → Prop} {members : Members} :
    Everywhere p (.object members)
      ↔ p (.object members) ∧ ∀ m ∈ members, Everywhere p m.2 := by
  constructor
  · intro h
    exact ⟨h.here, fun m hm w hw => h w (.member hm hw)⟩
  · rintro ⟨hhere, hmembers⟩ w hw
    cases hw with
    | here => exact hhere
    | member hm hw => exact hmembers _ hm w hw

/-- A value that is neither array nor object. -/
def IsAtom : Json → Prop
  | .array _ | .object _ => False
  | _ => True

/-- Nothing else occurs in it. -/
theorem everywhere_atom {p : Json → Prop} {v : Json} (hv : p v) (hatom : IsAtom v) :
    Everywhere p v := by
  intro w hw
  cases hw with
  | here => exact hv
  | item => exact hatom.elim
  | member => exact hatom.elim

mutual

/-- Whether all that occurs in a value passes a test. -/
def everywhere (test : Json → Bool) : Json → Bool
  | .array items => test (.array items) && everywhereItems test items
  | .object members => test (.object members) && everywhereMembers test members
  | v => test v

/-- Whether all items pass it. -/
def everywhereItems (test : Json → Bool) : List Json → Bool
  | [] => true
  | v :: items => everywhere test v && everywhereItems test items

/-- Whether all members pass it. -/
def everywhereMembers (test : Json → Bool) : List (Text × Json) → Bool
  | [] => true
  | (_, v) :: members => everywhere test v && everywhereMembers test members

end

theorem everywhereItems_eq_all (test : Json → Bool) (items : List Json) :
    everywhereItems test items = items.all (everywhere test) := by
  induction items with
  | nil => rfl
  | cons v items ih => rw [everywhereItems, ih, List.all_cons]

theorem everywhereMembers_eq_all (test : Json → Bool) (members : Members) :
    everywhereMembers test members = members.all fun m => everywhere test m.2 := by
  induction members with
  | nil => rfl
  | cons m members ih => rw [everywhereMembers, ih, List.all_cons]

/-- The test decides the property. -/
theorem everywhere_eq_true_iff {p : Json → Prop} [DecidablePred p] {v : Json} :
    everywhere (fun w => decide (p w)) v = true ↔ Everywhere p v := by
  induction v using Json.induction with
  | null | bool _ | int _ | float _ | string _ =>
    exact decide_eq_true_iff.trans
      ⟨fun h => everywhere_atom h (by trivial), fun h => h.here⟩
  | array items ih =>
    rw [everywhere, Bool.and_eq_true, decide_eq_true_iff, everywhere_array_iff,
      everywhereItems_eq_all, List.all_eq_true]
    exact and_congr_right fun _ => forall₂_congr ih
  | object members ih =>
    rw [everywhere, Bool.and_eq_true, decide_eq_true_iff, everywhere_object_iff,
      everywhereMembers_eq_all, List.all_eq_true]
    exact and_congr_right fun _ => forall₂_congr ih

instance {p : Json → Prop} [DecidablePred p] (v : Json) : Decidable (Everywhere p v) :=
  decidable_of_iff _ everywhere_eq_true_iff

/-! ## §4. Values in memory, and values without infinities. -/

/-- A value a program can hold, as far as it goes by itself: a fraction is a number of the format,
and an object binds each name once. -/
def IsHeld : Json → Prop
  | .float x => x.IsCanonical
  | .object members => (Bindings.keys members).Nodup
  | _ => True

/-- A number, if it is one, that is finite. -/
def IsFinite : Json → Prop
  | .float x => x.isFinite = true
  | _ => True

instance : DecidablePred Binary64.IsCanonical
  | .nan => inferInstanceAs (Decidable True)
  | .infinity _ => inferInstanceAs (Decidable True)
  | .finite _ _ _ => inferInstanceAs (Decidable (_ ∧ _ ∧ _ ∧ (_ ∨ _)))

instance : DecidablePred IsHeld
  | .float x => inferInstanceAs (Decidable x.IsCanonical)
  | .object members => inferInstanceAs (Decidable (Bindings.keys members).Nodup)
  | .null | .bool _ | .int _ | .string _ | .array _ => inferInstanceAs (Decidable True)

instance : DecidablePred IsFinite
  | .float x => inferInstanceAs (Decidable (x.isFinite = true))
  | .null | .bool _ | .int _ | .string _ | .array _ | .object _ => inferInstanceAs (Decidable True)

/-- **A value with its infinities replaced has none.** -/
theorem everywhere_isFinite_finiteOnly (v : Json) : Everywhere IsFinite v.finiteOnly := by
  induction v using Json.induction with
  | null | bool _ | int _ | string _ => exact everywhere_atom trivial trivial
  | float x =>
    rw [finiteOnly]
    split
    · next h => exact everywhere_atom h trivial
    · exact everywhere_atom trivial trivial
  | array items ih =>
    rw [finiteOnly, finiteOnlyItems_eq_map, everywhere_array_iff]
    refine ⟨trivial, ?_⟩
    rw [List.forall_mem_map]
    exact ih
  | object members ih =>
    rw [finiteOnly, finiteOnlyMembers_eq_map, everywhere_object_iff]
    refine ⟨trivial, ?_⟩
    rw [List.forall_mem_map]
    exact ih

/-- **A value without infinities is kept.** -/
theorem finiteOnly_eq_self {v : Json} (h : Everywhere IsFinite v) : v.finiteOnly = v := by
  induction v using Json.induction with
  | null | bool _ | int _ | string _ => rfl
  | float x =>
    have hx : x.isFinite = true := h.here
    rw [finiteOnly, if_pos hx]
  | array items ih =>
    rw [everywhere_array_iff] at h
    rw [finiteOnly, finiteOnlyItems_eq_map]
    have hitems : items.map finiteOnly = items.map id :=
      List.map_congr_left fun v hv => ih v hv (h.2 v hv)
    rw [hitems, List.map_id]
  | object members ih =>
    rw [everywhere_object_iff] at h
    rw [finiteOnly, finiteOnlyMembers_eq_map]
    have hmembers : (members.map fun m => (m.1, finiteOnly m.2)) = members.map id :=
      List.map_congr_left fun m hm => Prod.ext rfl (ih m hm (h.2 m hm))
    rw [hmembers, List.map_id]

/-- What holds everywhere still does when infinities are replaced, if null has it and arrays and
objects keep it. -/
theorem everywhere_finiteOnly {p : Json → Prop} (hnull : p .null)
    (harray : ∀ items, p (.array items) → p (.array (finiteOnlyItems items)))
    (hobject : ∀ members, p (.object members) → p (.object (finiteOnlyMembers members)))
    {v : Json} (h : Everywhere p v) : Everywhere p v.finiteOnly := by
  induction v using Json.induction with
  | null | bool _ | int _ | string _ => exact h
  | float x =>
    rw [finiteOnly]
    split
    · exact h
    · exact everywhere_atom hnull trivial
  | array items ih =>
    have hhere := harray items h.here
    rw [everywhere_array_iff] at h
    rw [finiteOnly, everywhere_array_iff]
    refine ⟨hhere, ?_⟩
    rw [finiteOnlyItems_eq_map, List.forall_mem_map]
    exact fun v hv => ih v hv (h.2 v hv)
  | object members ih =>
    have hhere := hobject members h.here
    rw [everywhere_object_iff] at h
    rw [finiteOnly, everywhere_object_iff]
    refine ⟨hhere, ?_⟩
    rw [finiteOnlyMembers_eq_map, List.forall_mem_map]
    exact fun m hm => ih m hm (h.2 m hm)

/-- A value that can be held still can when its infinities are replaced. -/
theorem everywhere_isHeld_finiteOnly {v : Json} (h : Everywhere IsHeld v) :
    Everywhere IsHeld v.finiteOnly := by
  refine everywhere_finiteOnly trivial (fun _ _ => trivial) (fun members hmembers => ?_) h
  -- the names stay, so they stay distinct
  show (Bindings.keys (finiteOnlyMembers members)).Nodup
  rw [keys_finiteOnlyMembers]
  exact hmembers

/-- Null takes the place of a number, so nothing is nested otherwise. -/
theorem depth_finiteOnly (v : Json) : v.finiteOnly.depth = v.depth := by
  induction v using Json.induction with
  | null | bool _ | int _ | string _ => rfl
  | float x =>
    rw [finiteOnly]
    split <;> rfl
  | array items ih =>
    rw [finiteOnly, depth, depth, finiteOnlyItems_eq_map]
    congr 1
    induction items with
    | nil => rfl
    | cons v items ihitems =>
      rw [List.forall_mem_cons] at ih
      rw [List.map_cons, depthItems, depthItems, ih.1, ihitems ih.2]
  | object members ih =>
    rw [finiteOnly, depth, depth, finiteOnlyMembers_eq_map]
    congr 1
    induction members with
    | nil => rfl
    | cons m members ihmembers =>
      rw [List.forall_mem_cons] at ih
      rw [List.map_cons, depthMembers, depthMembers, ih.1, ihmembers ih.2]

end EditorWire.Json
