/-
  EditorWire.Proofs.Dispatch.Reencoding — responses that are written and decoded again.

  The first time a response is decoded it may come in any encoding, with blanks,
  repeated names, names of no field, another name for the preference, infinities.
  Writing it settles all of that, and from then on nothing changes:

      decode        write        decode         write
      payload  →  items  →  text  →  items′  →  text

  where items′ are the items with null for every infinity.  So they have the same
  shapes and the same fields, and the text is written again.

  Main results:
    * `Item.not_isBare_of_decode` — what was decoded is made out as the same shape.
    * `Holder.listOfJson_of_encodeList` — what is decoded again has null for its infinities.
    * `Registry.decode_encodeList` — writing is a canonical form that is stable.
-/
import EditorWire.Dispatch.Registry
import EditorWire.Proofs.CodeAction.ReadBack

namespace EditorWire

open Json (Everywhere IsHeld IsShort everywhere_array_iff)
open Bindings (collect)

/-! ## §1. Items that were decoded. -/

namespace Item

/-- What holds everywhere in a value holds everywhere in what its item is written as. -/
theorem everywhere_of_decode {p : Json → Prop}
    (hcollect : ∀ (names : List Text) value?, names.Nodup → p (.object (collect names value?)))
    {v : Json} {item : Item} (h : decode v = .ok item) (hv : Everywhere p v) :
    Everywhere p (.object item.wireMembers) := by
  obtain ⟨members, rfl, hcheck⟩ := decode_eq_ok_iff.1 h
  rw [wireMembers_of_check hcheck]
  exact everywhere_projection hcollect hv

/-- **An item that was decoded is not bare**, with its infinities or without: something made it
out to be what it is, and that is written. -/
theorem not_isBare_of_decode {v : Json} {item : Item} (h : decode v = .ok item) :
    ¬ item.finiteOnly.IsBare := by
  obtain ⟨members, rfl, hcheck⟩ := decode_eq_ok_iff.1 h
  have hwritten : item.finiteOnly.wireMembers = written members := by
    rw [wireMembers_finiteOnly, wireMembers_of_check hcheck]
    rfl
  rw [← classify_wireMembers_iff, hwritten, classify_written, variant_finiteOnly,
    variant_of_check hcheck]

end Item

/-! ## §2. Lists of items. -/

namespace Holder

/-- Items that are not nested too deep are written as the array of their objects. -/
theorem encodeList_of_shallow {items : List Item}
    (h : ∀ item ∈ items, (Json.object item.wireMembers).depth ≤ Item.maxWrittenNesting) :
    encodeList (items.map of)
      = .ok (Json.print (.array (items.map fun item => .object item.finiteOnly.wireMembers))) := by
  refine encodeList_eq_ok_iff.2 ⟨_, ?_, rfl⟩
  rw [List.forall₂_map_left_iff, List.forall₂_map_right_iff, List.forall₂_same]
  exact fun item hitem => Item.toWire_eq_ok_iff.2 ⟨h item hitem, rfl⟩

/-- The text of the array of their objects is decoded as the items, if none of them is bare. -/
theorem listOfJson_print {items : List Item} (hwritable : ∀ item ∈ items, item.IsWritable)
    (hbare : ∀ item ∈ items, ¬ item.IsBare) :
    listOfJson (.text (Json.print (.array (items.map fun item => .object item.wireMembers))))
      = .ok (items.map of) := by
  have hheld : Everywhere IsHeld (.array (items.map fun item => .object item.wireMembers)) := by
    rw [everywhere_array_iff, List.forall_mem_map]
    exact ⟨trivial, fun item hitem => (hwritable item hitem).held⟩
  have hshort : Everywhere IsShort (.array (items.map fun item => .object item.wireMembers)) := by
    rw [everywhere_array_iff, List.forall_mem_map]
    exact ⟨trivial, fun item hitem => (hwritable item hitem).short⟩
  -- the array adds one level to what may be written, and far more may be read
  have hshallow : (Json.array (items.map fun item => .object item.wireMembers)).depth
      ≤ Json.defaultLevels := by
    have hitems : Json.depthItems (items.map fun item => .object item.wireMembers)
        ≤ Item.maxWrittenNesting := by
      rw [Json.depthItems_le_iff, List.forall_mem_map]
      exact fun item hitem => (hwritable item hitem).shallow
    rw [Json.depth]
    exact Nat.le_trans (Nat.succ_le_succ hitems) (by decide)
  refine listOfJson_eq_ok_iff.2
    ⟨_, items, (Json.load_print hheld).2 ⟨⟨hshort, hshallow⟩, rfl⟩, ?_, rfl⟩
  rw [List.forall₂_map_left_iff, List.forall₂_same]
  exact fun item hitem => Item.decode_wireMembers (hbare item hitem)

/-- Items that were decoded and are written are writable, and not bare without their infinities. -/
theorem exists_items_of_listOfJson {payload : Payload} {holders : List Holder} {t : Text}
    (hdecode : listOfJson payload = .ok holders) (hencode : encodeList holders = .ok t) :
    ∃ items : List Item, holders = items.map of ∧ (∀ item ∈ items, item.IsWritable)
      ∧ ∀ item ∈ items, ¬ item.finiteOnly.IsBare := by
  obtain ⟨values, items, hload, hitems, rfl⟩ := listOfJson_eq_ok_iff.1 hdecode
  obtain ⟨objects, hobjects, -⟩ := encodeList_eq_ok_iff.1 hencode
  have hheld := (everywhere_array_iff.1 (Json.everywhere_isHeld_of_load hload)).2
  have hshort := (everywhere_array_iff.1 (Json.everywhere_isShort_of_load hload)).2
  rw [List.forall₂_map_left_iff] at hobjects
  have hnodup : ∀ (names : List Text) (value? : Text → Option Json), names.Nodup →
      IsHeld (.object (collect names value?)) :=
    fun names value? h => (Bindings.keys_collect names value?).nodup h
  refine ⟨items, rfl, fun item hitem => ?_, fun item hitem => ?_⟩
  · -- it comes from a value of the payload and goes to an object of the text
    obtain ⟨v, hv, hdecoded⟩ := Result.exists_left_of_forall₂ hitems item hitem
    obtain ⟨object, -, hwritten⟩ := Result.exists_right_of_forall₂ hobjects item hitem
    exact ⟨Item.everywhere_of_decode hnodup hdecoded (hheld v hv),
      Item.everywhere_of_decode (fun _ _ _ => trivial) hdecoded (hshort v hv),
      (Item.toWire_eq_ok_iff.1 hwritten).1⟩
  · obtain ⟨v, -, hdecoded⟩ := Result.exists_left_of_forall₂ hitems item hitem
    exact Item.not_isBare_of_decode hdecoded

/-- The holder with every infinity in its item replaced by null. -/
def finiteOnly (h : Holder) : Holder := { h with item? := h.item?.map Item.finiteOnly }

theorem map_finiteOnly_of (items : List Item) :
    (items.map of).map finiteOnly = (items.map Item.finiteOnly).map of := by
  rw [List.map_map, List.map_map]
  refine List.map_congr_left fun item _ => ?_
  show Holder.mk (some item.variant) (some item.finiteOnly) = of item.finiteOnly
  rw [← item.variant_finiteOnly]
  rfl

/-- **What was decoded and written is decoded again**, with null for every infinity. -/
theorem listOfJson_of_encodeList {payload : Payload} {holders : List Holder} {t : Text}
    (hdecode : listOfJson payload = .ok holders) (hencode : encodeList holders = .ok t) :
    listOfJson (.text t) = .ok (holders.map finiteOnly) := by
  obtain ⟨items, rfl, hwritable, hbare⟩ := exists_items_of_listOfJson hdecode hencode
  have hwritable' : ∀ item ∈ items.map Item.finiteOnly, item.IsWritable :=
    List.forall_mem_map.2 fun item hitem => (hwritable item hitem).finiteOnly
  have hread := listOfJson_print hwritable' (List.forall_mem_map.2 hbare)
  rw [List.map_map] at hread
  rw [encodeList_of_shallow fun item hitem => (hwritable item hitem).shallow] at hencode
  rw [← Except.ok.inj hencode, map_finiteOnly_of]
  exact hread

/-- Without infinities the same text is written. -/
theorem encodeList_map_finiteOnly {items : List Item} (h : ∀ item ∈ items, item.IsWritable) :
    encodeList ((items.map of).map finiteOnly) = encodeList (items.map of) := by
  have hfinite : ∀ item ∈ items.map Item.finiteOnly,
      (Json.object item.wireMembers).depth ≤ Item.maxWrittenNesting :=
    List.forall_mem_map.2 fun item hitem => (h item hitem).finiteOnly.shallow
  rw [map_finiteOnly_of, encodeList_of_shallow hfinite,
    encodeList_of_shallow fun item hitem => (h item hitem).shallow, List.map_map]
  simp only [Function.comp_def, Item.finiteOnly_finiteOnly]

/-- Two holders hold the same shape with the same fields given. -/
structure SameShape (h k : Holder) : Prop where
  variant : k.variant? = h.variant?
  given : k.item?.map Item.givenNames = h.item?.map Item.givenNames

/-- **A list that was decoded and written is decoded again**, as items of the same shapes, and
written as the same text. -/
theorem listOfJson_encodeList {payload : Payload} {holders : List Holder} {t : Text}
    (hdecode : listOfJson payload = .ok holders) (hencode : encodeList holders = .ok t) :
    ∃ again, listOfJson (.text t) = .ok again ∧ List.Forall₂ SameShape holders again
      ∧ encodeList again = .ok t := by
  obtain ⟨items, rfl, hwritable, -⟩ := exists_items_of_listOfJson hdecode hencode
  refine ⟨_, listOfJson_of_encodeList hdecode hencode, ?_, ?_⟩
  · rw [List.forall₂_map_right_iff, List.forall₂_same, List.forall_mem_map]
    exact fun item _ => ⟨rfl, congrArg some item.givenNames_finiteOnly⟩
  · rw [encodeList_map_finiteOnly hwritable]
    exact hencode

end Holder

/-! ## §3. Responses by method. -/

namespace Registry

/-- The response to a code action request is loaded and decoded. -/
theorem default_decode_codeAction (payload : Payload) (levels : Nat) :
    Registry.default.decode codeActionMethod payload levels
      = Holder.load payload levels >>= Decoder.codeActions := by
  have hdecoder : Registry.default.get? codeActionMethod = some Decoder.codeActions :=
    get?_register _ _ _
  unfold decode
  rw [hdecoder]

/-- No other method has a decoder, so the payload is not looked at. -/
theorem default_decode_of_ne {method : Text} (h : method ≠ codeActionMethod) (payload : Payload)
    (levels : Nat) :
    Registry.default.decode method payload levels = .error (.decode (.noDecoder method)) := by
  have hnone : Registry.default.get? method = none := get?_register_of_ne h _ _
  unfold decode
  rw [hnone]

/-- The response to a code action request is decoded to items exactly if it is a list of them. -/
theorem default_decode_eq_items_iff {payload : Payload} {holders : List Holder} :
    Registry.default.decode codeActionMethod payload = .ok (.items holders)
      ↔ Holder.listOfJson payload = .ok holders := by
  rw [default_decode_codeAction]
  unfold Holder.listOfJson
  simp only [Result.bind_eq_ok_iff]
  -- null is decoded too, but not to items
  have hvalue : ∀ v, Decoder.codeActions v = .ok (.items holders)
      ↔ Holder.decodeList v = .ok holders := by
    intro v
    unfold Decoder.codeActions
    split
    · constructor
      · intro h
        cases h
      · intro h
        cases h
    · rw [Result.map_eq_ok_iff]
      constructor
      · intro h
        obtain ⟨found, hfound, heq⟩ := h
        rw [hfound, Decoded.items.inj heq]
      · exact fun h => ⟨holders, h, rfl⟩
  simp only [hvalue]

/-- **Writing a response is a stable canonical form**: whatever payload was decoded to items that
could be written, the text is decoded to as many items of the same shapes with the same fields,
and these are written as the same text. -/
theorem decode_encodeList {payload : Payload} {holders : List Holder} {t : Text}
    (hdecode : Registry.default.decode codeActionMethod payload = .ok (.items holders))
    (hencode : Holder.encodeList holders = .ok t) :
    ∃ again, Registry.default.decode codeActionMethod (.text t) = .ok (.items again)
      ∧ List.Forall₂ Holder.SameShape holders again ∧ Holder.encodeList again = .ok t := by
  rw [default_decode_eq_items_iff] at hdecode
  obtain ⟨again, hagain, hsame, htext⟩ := Holder.listOfJson_encodeList hdecode hencode
  exact ⟨again, default_decode_eq_items_iff.2 hagain, hsame, htext⟩

/-- A response with a name of no field, the other name of the preference and an infinity. -/
def looseResponse : Json :=
  .array [.object [("x", .null), ("is_preferred", .bool true), ("title", .string "t"),
    ("data", .array [.float (.infinity false)])]]

/-- The item of that response. -/
def looseItem : Item :=
  .codeAction ⟨"t", .absent, .absent, .given true, .absent, .absent, .absent,
    some (.array [.float (.infinity false)])⟩

/-- The text it is written as: the name of the wire, and null. -/
def settledText : Text := "[\x7b\"title\":\"t\",\"isPreferred\":true,\"data\":[null]\x7d]"

/-- The loose response settles. -/
theorem decode_encodeList_loose :
    Registry.default.decode codeActionMethod (.text looseResponse.print)
        = .ok (.items [.of looseItem])
      ∧ Holder.encodeList [.of looseItem] = .ok settledText
      ∧ ∃ again, Registry.default.decode codeActionMethod (.text settledText) = .ok (.items again)
        ∧ List.Forall₂ Holder.SameShape [.of looseItem] again
        ∧ Holder.encodeList again = .ok settledText := by
  have hload : Json.load (.text looseResponse.print) = .ok looseResponse :=
    (Json.load_print (by decide)).2 ⟨⟨by decide, by decide⟩, rfl⟩
  have hdecode : Registry.default.decode codeActionMethod (.text looseResponse.print)
      = .ok (.items [.of looseItem]) := by
    rw [default_decode_eq_items_iff, Holder.listOfJson_of_load hload]
    rfl
  have hencode : Holder.encodeList [.of looseItem] = .ok settledText := by rfl
  exact ⟨hdecode, hencode, decode_encodeList hdecode hencode⟩

end Registry

end EditorWire
