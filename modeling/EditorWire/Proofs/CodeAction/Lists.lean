/-
  EditorWire.Proofs.CodeAction.Lists — lists are decoded and written item by item.

  Both loops go through their list from the front and end at the first fault.  So
  a list has a result exactly if each thing in it has one, and then it is the list
  of these, in order; otherwise the fault is that of the first thing at fault:

      decode v₁ = i₁, …, decode vₙ = iₙ        ↔   decodeFrom k [v₁, …, vₙ] = [i₁, …, iₙ]
      decode v₁ = i₁, …, decode vⱼ = fault     →   decodeFrom k [v₁, …, vₙ] = fault at k + j

  Main results:
    * `listOfJson_eq_ok_iff`, `encodeList_eq_ok_iff` — when a list is decoded, and when
      it is written.
    * `decodeFrom_append_error` — the first value at fault is the one that is reported.
-/
import EditorWire.Proofs.Holder.Methods
import EditorWire.Proofs.Result

namespace EditorWire

/-! ## §1. Values and items. -/

namespace Item

/-- The values of a response are decoded exactly if each of them is, one item for each value. -/
theorem decodeFrom_eq_ok_iff {index : Nat} {values : List Json} {items : List Item} :
    decodeFrom index values = .ok items
      ↔ List.Forall₂ (fun v item => decode v = .ok item) values items := by
  induction values generalizing index items with
  | nil =>
    constructor
    · intro h
      obtain rfl := Except.ok.inj h
      exact .nil
    · intro h
      cases h
      rfl
  | cons v values ih =>
    rw [decodeFrom]
    constructor
    · intro h
      split at h
      · cases h
      · next item hitem =>
        obtain ⟨rest, hrest, rfl⟩ := Result.map_eq_ok_iff.1 h
        exact .cons hitem (ih.1 hrest)
    · intro h
      cases h with
      | @cons _ item _ rest hitem hrest =>
        rw [hitem]
        simp only
        rw [ih.2 hrest]
        rfl

/-- The first value at fault ends the list, whatever comes after it. -/
theorem decodeFrom_append_error {index : Nat} {before : List Json} {v : Json} {fault : DecodeFault}
    (hbefore : ∀ u ∈ before, ∃ item, decode u = .ok item) (hv : decode v = .error fault)
    (after : List Json) :
    decodeFrom index (before ++ v :: after) = .error (.element (index + before.length) fault) := by
  induction before generalizing index with
  | nil =>
    rw [List.nil_append, decodeFrom, hv]
    rfl
  | cons u before ih =>
    obtain ⟨⟨item, hitem⟩, hbefore⟩ := List.forall_mem_cons.1 hbefore
    rw [List.cons_append, decodeFrom, hitem]
    simp only
    rw [ih hbefore, List.length_cons, Nat.add_assoc, Nat.add_comm 1]
    rfl

end Item

/-! ## §2. Holders and objects. -/

namespace Holder

/-- Holders are written exactly if each of them is, one object for each holder. -/
theorem toWireList_eq_ok_iff {holders : List Holder} {values : List Json} :
    toWireList holders = .ok values
      ↔ List.Forall₂ (fun h v => h.toWire = .ok v) holders values := by
  induction holders generalizing values with
  | nil =>
    constructor
    · intro h
      obtain rfl := Except.ok.inj h
      exact .nil
    · intro h
      cases h
      rfl
  | cons holder holders ih =>
    rw [toWireList]
    constructor
    · intro h
      split at h
      · cases h
      · next v hv =>
        obtain ⟨rest, hrest, rfl⟩ := Result.map_eq_ok_iff.1 h
        exact .cons hv (ih.1 hrest)
    · intro h
      cases h with
      | @cons _ v _ rest hv hrest =>
        rw [hv]
        simp only
        rw [ih.2 hrest]
        rfl

/-! ## §3. Payloads and texts. -/

variable {levels : Nat}

/-- A payload that is loaded is decoded as its value is. -/
theorem ofJson_of_load {payload : Payload} {v : Json} (h : Json.load payload levels = .ok v) :
    ofJson payload levels = ((Item.decode v).mapError .decode).map of := by
  rw [ofJson_eq]
  unfold itemOf load
  rw [h]
  rfl

/-- A payload is decoded to a holder exactly if it is loaded and its value is decoded. -/
theorem ofJson_eq_ok_iff {payload : Payload} {holder : Holder} :
    ofJson payload levels = .ok holder
      ↔ ∃ v item, Json.load payload levels = .ok v ∧ Item.decode v = .ok item
        ∧ holder = of item := by
  constructor
  · intro h
    rw [ofJson_eq] at h
    obtain ⟨item, hgiven, rfl⟩ := Result.map_eq_ok_iff.1 h
    obtain ⟨v, hload, hitem⟩ := Result.bind_eq_ok_iff.1 hgiven
    exact ⟨v, item, Result.mapError_eq_ok_iff.1 hload, Result.mapError_eq_ok_iff.1 hitem, rfl⟩
  · rintro ⟨v, item, hload, hitem, rfl⟩
    rw [ofJson_of_load hload, hitem]
    rfl

/-- A list that is loaded is decoded as its value is. -/
theorem listOfJson_of_load {payload : Payload} {v : Json} (h : Json.load payload levels = .ok v) :
    listOfJson payload levels = decodeList v := by
  unfold listOfJson load
  rw [h]
  rfl

/-- A response is decoded exactly if it is loaded as an array and each of its values is decoded. -/
theorem listOfJson_eq_ok_iff {payload : Payload} {holders : List Holder} :
    listOfJson payload levels = .ok holders
      ↔ ∃ values items, Json.load payload levels = .ok (.array values)
        ∧ List.Forall₂ (fun v item => Item.decode v = .ok item) values items
        ∧ holders = items.map of := by
  constructor
  · intro h
    unfold listOfJson load at h
    obtain ⟨v, hload, h⟩ := Result.bind_eq_ok_iff.1 h
    rw [Result.mapError_eq_ok_iff] at hload
    unfold decodeList at h
    obtain ⟨items, hitems, hholders⟩ := Result.map_eq_ok_iff.1 h
    rw [Result.mapError_eq_ok_iff] at hitems
    unfold Item.decodeList at hitems
    split at hitems
    · next values =>
      exact ⟨values, items, hload, Item.decodeFrom_eq_ok_iff.1 hitems, hholders.symm⟩
    · cases hitems
  · intro h
    obtain ⟨values, items, hload, hitems, rfl⟩ := h
    rw [listOfJson_of_load hload]
    show ((Item.decodeFrom 0 values).mapError Failure.decode).map _ = _
    rw [Item.decodeFrom_eq_ok_iff.2 hitems]
    rfl

theorem encodeList_eq_ok_iff {holders : List Holder} {t : Text} :
    encodeList holders = .ok t
      ↔ ∃ values, List.Forall₂ (fun h v => h.toWire = .ok v) holders values
        ∧ Json.print (.array values) = t := by
  unfold encodeList
  rw [Result.map_eq_ok_iff]
  simp only [toWireList_eq_ok_iff]

end Holder

end EditorWire
