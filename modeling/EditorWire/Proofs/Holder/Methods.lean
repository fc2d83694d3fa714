/-
  EditorWire.Proofs.Holder.Methods — what methods leave in a holder.

  A method writes the two slots one after the other, and where it fails it leaves
  them as they are by then.  Each method that fills a holder comes to one of two
  ends, whatever was held:

      it is given an item       both slots are written, for this item
      it is not                 it fails, and neither slot is written

  So the slots are never left apart, and a method that fails leaves no trace.

  Main results:
    * `Agrees.variant?_eq_iff`, `Agrees.isSet_iff` — what one slot tells of the other.
    * `put_apply`, `unmarshal_apply` — what comes of the methods that fill a holder.
    * `make_eq`, `ofJson_eq` — which holders are made.
-/
import EditorWire.Holder.Basic
import EditorWire.Proofs.Result

namespace EditorWire.Holder

/-! ## §1. Slots that agree. -/

/-- The shape in the one slot is that of the item in the other; without an item there is none. -/
def Agrees (h : Holder) : Prop := h.variant? = h.item?.map Item.variant

theorem agrees_of (item : Item) : (of item).Agrees := rfl

/-- Where the slots agree, the shape says what is held. -/
theorem Agrees.variant?_eq_iff {h : Holder} (hagrees : h.Agrees) :
    (h.variant? = some .command ↔ ∃ c, h.item? = some (.command c))
      ∧ (h.variant? = some .codeAction ↔ ∃ a, h.item? = some (.codeAction a))
      ∧ (h.variant? = none ↔ h.item? = none) := by
  rw [hagrees]
  cases h.item? with
  | none => simp
  | some item => cases item <;> simp [Item.variant]

/-- Where the slots agree, the one slot is set exactly if the other is. -/
theorem Agrees.isSet_iff {h : Holder} (hagrees : h.Agrees) :
    h.isSet = true ↔ ∃ item, h.item? = some item := by
  unfold isSet
  rw [hagrees]
  cases h.item? <;> simp

/-! ## §2. Methods that fill a holder. -/

/-- The item that a value is an instance of. -/
def Value.item : Value → Except Failure Item
  | .codeAction a => .ok (.codeAction a)
  | .command c => .ok (.command c)
  | value => .error (.notAnItem value.typeName)

/-- The item of a payload. -/
def itemOf (payload : Payload) (levels : Nat) : Except Failure Item := do
  let v ← load payload levels
  (Item.decode v).mapError .decode

/-- What comes of a method and what it leaves, if it writes both slots when it is given an item,
and fails and writes neither when it is not. -/
def filled (given : Except Failure Item) (h : Holder) : Except Failure Unit × Holder :=
  match given with
  | .ok item => (.ok (), of item)
  | .error failure => (.error failure, h)

/-- **Only an item is put in.** -/
theorem put_apply (value : Value) (h : Holder) : (put value).apply h = filled value.item h := by
  cases value <;> rfl

theorem Value.item_ofItem (item : Item) : (ofItem item).item = .ok item := by
  cases item <;> rfl

/-- **Only the item of a payload is put in**, however it comes that there is none. -/
theorem unmarshal_apply (payload : Payload) (levels : Nat) (h : Holder) :
    (unmarshal payload levels).apply h = filled (itemOf payload levels) h := by
  unfold Method.apply unmarshal itemOf
  rw [Result.run_ofExcept_bind]
  cases load payload levels with
  | error failure => rfl
  | ok v =>
    show (MonadExcept.ofExcept _ >>= _ : Method Unit).run.run h
      = filled ((Item.decode v).mapError .decode) h
    rw [Result.run_ofExcept_bind]
    cases (Item.decode v).mapError Failure.decode with
    | error failure => rfl
    | ok item =>
      show (put (.ofItem item)).apply h = _
      rw [put_apply, Value.item_ofItem]

/-- A method that only looks leaves what it looks at. -/
theorem Method.apply_reading {α : Type} (look : Holder → Except Failure α) (h : Holder) :
    (Method.reading look).apply h = (look h, h) :=
  Result.run_ofExcept (look h) h

/-! ## §3. Holders that are made. -/

/-- A holder is made of nothing, or of an item. -/
theorem make_eq (value : Value) :
    make value = if value.isNothing then .ok empty else value.item.map of := by
  cases value <;> rfl

theorem ofJson_eq (payload : Payload) (levels : Nat) :
    ofJson payload levels = (itemOf payload levels).map of := by
  unfold ofJson itemOf
  cases load payload levels with
  | error failure => rfl
  | ok v =>
    show ofObject v = ((Item.decode v).mapError Failure.decode).map of
    unfold ofObject
    cases Item.decode v with
    | error fault => rfl
    | ok item => exact make_ofItem item

end EditorWire.Holder
