/-
  EditorWire.Proofs.Holder.History — what holders hold after any operations.

  A run leaves a trace: its operations, each with what came of it.  An operation
  that succeeds may have filled a holder, the one it names, and the trace says what
  every holder holds:

      trace  =  before ++ birth :: life      the last event that made the holder is `birth`
      item   =  the last item put into it by birth :: life
      shape  =  the shape of this item

  The two slots are written one after the other and a method may fail at any
  point, so that the slots agree and that a failure is not seen in any holder is
  carried from each operation to the next.

  Main results:
    * `step_effect` — all that an operation can do to the holders.
    * `step_eq_self_of_error` — an operation that fails leaves every holder as it was.
    * `AllAgree.step`, `AllAgree.run` — the slots of every holder agree at any time.
    * `get?_step_of_creates`, `get?_step_of_not_creates` — the holder of a name after one
      operation.
    * `run_history` — the holders after a run.
-/
import EditorWire.Holder.History
import EditorWire.Proofs.Bindings
import EditorWire.Proofs.Holder.Methods
import EditorWire.Proofs.Result
import Mathlib.Data.List.Induction

namespace EditorWire.Holders

open Holder (Method filled itemOf)

/-! ## §1. What is done to the holders. -/

/-- What is made of a result afterwards changes no holder. -/
theorem Action.apply_bind_pure {α β : Type} (action : Action α) (f : α → β) (holders : Holders) :
    (action >>= fun a => pure (f a) : Action β).apply holders
      = ((action.apply holders).1.map f, (action.apply holders).2) := by
  show (ExceptT.bindCont (fun a => (pure (f a) : Action β)) (action.apply holders).1
    : StateM Holders (Except Failure β)).run (action.apply holders).2 = _
  cases (action.apply holders).1 <;> rfl

theorem find_eq_ok_iff {holders : Holders} {slot : Text} {h : Holder} :
    holders.find slot = .ok h ↔ Bindings.get? holders slot = some h := by
  unfold find
  cases Bindings.get? holders slot <;> simp

theorem find_of_none {holders : Holders} {slot : Text}
    (hget : Bindings.get? holders slot = none) : holders.find slot = .error (.noHolder slot) := by
  unfold find
  rw [hget]

/-- The holder of the name is left as the method leaves it, whether it fails or not. -/
theorem invoke_apply {α : Type} {holders : Holders} {slot : Text} {h : Holder}
    (hget : Bindings.get? holders slot = some h) (method : Method α) :
    (invoke slot method).apply holders
      = ((method.apply h).1, Bindings.insert holders slot (method.apply h).2) := by
  show (MonadExcept.ofExcept (holders.find slot) >>= _ : Action α).run.run holders = _
  rw [Result.run_ofExcept_bind, find_eq_ok_iff.2 hget]
  cases hmethod : method.apply h with
  | mk result left => cases result <;> simp only [hmethod] <;> rfl

/-- Without a holder of the name no method is called. -/
theorem invoke_apply_of_none {α : Type} {holders : Holders} {slot : Text}
    (hget : Bindings.get? holders slot = none) (method : Method α) :
    (invoke slot method).apply holders = (.error (.noHolder slot), holders) := by
  show (MonadExcept.ofExcept (holders.find slot) >>= _ : Action α).run.run holders = _
  rw [Result.run_ofExcept_bind, find_of_none hget]

/-- A method that only looks changes no holder. -/
theorem invoke_reading_apply {α : Type} (holders : Holders) (slot : Text)
    (look : Holder → Except Failure α) :
    (invoke slot (.reading look)).apply holders = (holders.find slot >>= look, holders) := by
  cases hget : Bindings.get? holders slot with
  | none =>
    rw [invoke_apply_of_none hget, find_of_none hget]
    rfl
  | some h =>
    rw [invoke_apply hget, Holder.Method.apply_reading, Bindings.insert_eq_self hget,
      find_eq_ok_iff.2 hget]
    rfl

/-- What fills the holder of a name fails and changes no holder, or leaves an item in it. -/
theorem invoke_filled_cases {method : Method Unit} {given : Except Failure Item}
    (hmethod : ∀ h, method.apply h = filled given h) (holders : Holders) (slot : Text) :
    (∃ failure, (invoke slot method).apply holders = (.error failure, holders))
      ∨ ∃ item old, given = .ok item ∧ Bindings.get? holders slot = some old
        ∧ (invoke slot method).apply holders
          = (.ok (), Bindings.insert holders slot (.of item)) := by
  cases hget : Bindings.get? holders slot with
  | none => exact .inl ⟨_, invoke_apply_of_none hget method⟩
  | some old =>
    rw [invoke_apply hget, hmethod]
    cases given with
    | error failure =>
      refine .inl ⟨failure, ?_⟩
      show (_, Bindings.insert holders slot old) = _
      rw [Bindings.insert_eq_self hget]
      rfl
    | ok item => exact .inr ⟨item, old, rfl, rfl, rfl⟩

theorem looking_apply {α : Type} (holders : Holders) (look : Holders → Except Failure α) :
    (looking look).apply holders = (look holders, holders) :=
  Result.run_ofExcept (look holders) holders

/-- A holder that was not made is not kept, and no other is changed. -/
theorem keep_apply (holders : Holders) (slot : Text) (made : Except Failure Holder) :
    (keep slot made).apply holders =
      match made with
      | .ok h => (.ok (), Bindings.insert holders slot h)
      | .error failure => (.error failure, holders) := by
  cases made <;> rfl

/-! ## §2. What operations give and where. -/

namespace Operation

/-- The item that is given, by itself or in a payload. -/
def item? : Operation → Option Item
  | .make _ value | .put _ value => value.item.toOption
  | .createFromJson _ payload levels | .unmarshal _ payload levels =>
      (itemOf payload levels).toOption
  | _ => none

/-- The holder that is to be filled. -/
def target? : Operation → Option Text
  | .make slot _ | .createFromJson slot .. | .put slot _ | .unmarshal slot .. => some slot
  | _ => none

/-- A new holder is to be made. -/
def isCreation : Operation → Bool
  | .make .. | .createFromJson .. => true
  | _ => false

/-- No holder is to be filled. -/
def IsRead (operation : Operation) : Prop := operation.target? = none

end Operation

/-- A holder with the item and its shape in its slots. -/
def holding (item? : Option Item) : Holder := ⟨item?.map Item.variant, item?⟩

/-- What is made of a value holds the item of the value, if it is one. -/
theorem eq_holding_of_make {value : Holder.Value} {h : Holder} (hmake : Holder.make value = .ok h) :
    h = holding value.item.toOption := by
  rw [Holder.make_eq] at hmake
  cases value with
  | other typeName => cases hmake
  | nothing | command _ | codeAction _ => exact (Except.ok.inj hmake).symm

theorem eq_holding_of_ofJson {payload : Payload} {levels : Nat} {h : Holder}
    (hjson : Holder.ofJson payload levels = .ok h) :
    h = holding (itemOf payload levels).toOption := by
  rw [Holder.ofJson_eq] at hjson
  obtain ⟨item, hitem, rfl⟩ := Result.map_eq_ok_iff.1 hjson
  rw [hitem]
  rfl

/-! ## §3. One operation. -/

/-- **All that an operation can come to**: it fails and changes no holder, it looks at some and
changes none, it makes the one it names, or it puts an item into the one it names. -/
inductive Effect (holders : Holders) (operation : Operation) :
    Except Failure Reply × Holders → Prop where
  | failed (failure : Failure) : Effect holders operation (.error failure, holders)
  | looked (result : Except Failure Reply) (hread : operation.IsRead) :
      Effect holders operation (result, holders)
  | made {slot : Text} (htarget : operation.target? = some slot)
      (hcreation : operation.isCreation = true) :
      Effect holders operation
        (.ok .done, Bindings.insert holders slot (holding operation.item?))
  | filled {slot : Text} {item : Item} {old : Holder} (htarget : operation.target? = some slot)
      (hitem : operation.item? = some item) (hold : Bindings.get? holders slot = some old) :
      Effect holders operation (.ok .done, Bindings.insert holders slot (.of item))

/-- What makes a holder fails, or makes it of what it was given. -/
theorem effect_of_keep {operation : Operation} {slot : Text} {made : Except Failure Holder}
    (holders : Holders) (htarget : operation.target? = some slot)
    (hcreation : operation.isCreation = true)
    (hmade : ∀ h, made = .ok h → h = holding operation.item?) :
    Effect holders operation
      ((keep slot made >>= fun _ => pure .done : Action Reply).apply holders) := by
  rw [Action.apply_bind_pure, keep_apply]
  cases made with
  | error failure => exact .failed failure
  | ok h =>
    rw [hmade h rfl]
    exact .made htarget hcreation

/-- What fills a holder fails, or puts in what it was given. -/
theorem effect_of_invoke {operation : Operation} {slot : Text} {method : Method Unit}
    {given : Except Failure Item} (holders : Holders) (htarget : operation.target? = some slot)
    (hgiven : operation.item? = given.toOption)
    (hmethod : ∀ h, method.apply h = filled given h) :
    Effect holders operation
      ((invoke slot method >>= fun _ => pure .done : Action Reply).apply holders) := by
  rw [Action.apply_bind_pure]
  rcases invoke_filled_cases hmethod holders slot with
    ⟨failure, happly⟩ | ⟨item, old, rfl, hold, happly⟩
  · rw [happly]
    exact .failed failure
  · rw [happly]
    exact .filled htarget hgiven hold

/-- What looks at one holder changes none. -/
theorem effect_of_reading {operation : Operation} {α : Type} (holders : Holders) (slot : Text)
    (look : Holder → Except Failure α) (reply : α → Reply) (hread : operation.IsRead) :
    Effect holders operation
      ((invoke slot (.reading look) >>= fun a => pure (reply a) : Action Reply).apply holders) := by
  rw [Action.apply_bind_pure, invoke_reading_apply]
  exact .looked _ hread

/-- What looks at several holders changes none. -/
theorem effect_of_looking {operation : Operation} (holders : Holders)
    (look : Holders → Except Failure Reply) (hread : operation.IsRead) :
    Effect holders operation ((looking look).apply holders) := by
  rw [looking_apply]
  exact .looked _ hread

theorem step_effect (holders : Holders) (operation : Operation) :
    Effect holders operation (holders.step operation) := by
  cases operation with
  | make slot value => exact effect_of_keep holders rfl rfl fun _ => eq_holding_of_make
  | createFromJson slot payload levels =>
    exact effect_of_keep holders rfl rfl fun _ => eq_holding_of_ofJson
  | put slot value => exact effect_of_invoke holders rfl rfl (Holder.put_apply value)
  | unmarshal slot payload levels =>
    exact effect_of_invoke holders rfl rfl (Holder.unmarshal_apply payload levels)
  | get slot => exact effect_of_reading holders slot Holder.get .item rfl
  | marshal slot => exact effect_of_reading holders slot Holder.encode .text rfl
  | toWire slot => exact effect_of_reading holders slot Holder.toWire (fun v => .text v.print) rfl
  | display slot => exact effect_of_reading holders slot (fun h => .ok h.display) .text rfl
  | compare | compareOther | encode => exact effect_of_looking holders _ rfl

/-- **An operation that fails leaves every holder as it was.** -/
theorem step_eq_self_of_error {holders : Holders} {operation : Operation} {failure : Failure}
    (h : (holders.step operation).1 = .error failure) : (holders.step operation).2 = holders := by
  have heffect := step_effect holders operation
  generalize holders.step operation = result at h heffect
  cases heffect with
  | failed | looked => rfl
  | made | filled => cases h

/-- So does one that only looks. -/
theorem step_eq_self_of_isRead {operation : Operation} (h : operation.IsRead) (holders : Holders) :
    (holders.step operation).2 = holders := by
  have heffect := step_effect holders operation
  generalize holders.step operation = result at heffect
  cases heffect with
  | failed | looked => rfl
  | made htarget | filled htarget =>
    rw [Operation.IsRead, htarget] at h
    cases h

/-- Anything but an item is refused. -/
theorem step_put_error {holders : Holders} {slot : Text} {value : Holder.Value} {old : Holder}
    {failure : Failure} (hget : Bindings.get? holders slot = some old)
    (hvalue : value.item = .error failure) :
    (holders.step (.put slot value)).1 = .error failure := by
  show ((invoke slot (Holder.put value) >>= fun _ => pure .done : Action Reply).apply holders).1 = _
  rw [Action.apply_bind_pure, invoke_apply hget, Holder.put_apply, hvalue]
  rfl

/-- The item is looked up in the holder of the name. -/
theorem step_get {holders : Holders} {slot : Text} {h : Holder}
    (hget : Bindings.get? holders slot = some h) :
    (holders.step (.get slot)).1 = h.get.map .item := by
  show ((invoke slot (.reading Holder.get) >>= fun a => pure (.item a) : Action Reply).apply
    holders).1 = _
  rw [Action.apply_bind_pure, invoke_reading_apply, find_eq_ok_iff.2 hget]
  rfl

/-! ## §4. Slots that agree. -/

/-- The slots of every holder agree. -/
def AllAgree (holders : Holders) : Prop :=
  ∀ slot h, Bindings.get? holders slot = some h → h.Agrees

theorem AllAgree.insert {holders : Holders} (hall : AllAgree holders) (slot : Text) {h : Holder}
    (hagrees : h.Agrees) : AllAgree (Bindings.insert holders slot h) := by
  intro other k hget
  by_cases hother : other = slot
  · rw [hother, Bindings.get?_insert] at hget
    exact Option.some.inj hget ▸ hagrees
  · rw [Bindings.get?_insert_of_ne hother] at hget
    exact hall other k hget

/-- **Slots that agree before an operation agree after it**, whether it fails or not. -/
theorem AllAgree.step {holders : Holders} (hall : AllAgree holders) (operation : Operation) :
    AllAgree (holders.step operation).2 := by
  have heffect := step_effect holders operation
  generalize holders.step operation = result at heffect
  cases heffect with
  | failed | looked => exact hall
  | made => exact hall.insert _ rfl
  | filled => exact hall.insert _ (Holder.agrees_of _)

/-- **The slots of every holder agree after a run.** -/
theorem AllAgree.run {holders : Holders} (hall : AllAgree holders) (operations : List Operation) :
    AllAgree (run holders operations) := by
  induction operations generalizing holders with
  | nil => exact hall
  | cons operation operations ih => exact ih (hall.step operation)

theorem allAgree_run (operations : List Operation) : AllAgree (run [] operations) :=
  AllAgree.run (fun _ _ hget => by cases hget) operations

/-! ## §5. Traces. -/

/-- An operation and what came of it. -/
structure Event where
  operation : Operation
  outcome : Except Failure Reply

namespace Event

/-- The operation made on some holders. -/
def of (holders : Holders) (operation : Operation) : Event :=
  ⟨operation, (holders.step operation).1⟩

/-- The holder that was filled. -/
def target? (e : Event) : Option Text :=
  match e.outcome with
  | .ok _ => e.operation.target?
  | .error _ => none

/-- The holder was made. -/
def Creates (slot : Text) (e : Event) : Prop :=
  e.target? = some slot ∧ e.operation.isCreation = true

/-- The item that was put into the holder. -/
def put? (slot : Text) (e : Event) : Option Item :=
  if e.target? = some slot then e.operation.item? else none

end Event

/-- The operations made one after another, each with what came of it. -/
def trace (holders : Holders) : List Operation → List Event
  | [] => []
  | operation :: rest => .of holders operation :: trace (holders.step operation).2 rest

/-- The last item that was put into the holder. -/
def lastPut? (slot : Text) (events : List Event) : Option Item :=
  (events.filterMap (Event.put? slot)).getLast?

theorem run_concat (holders : Holders) (operations : List Operation) (operation : Operation) :
    run holders (operations ++ [operation]) = ((run holders operations).step operation).2 := by
  simp [run]

theorem trace_concat (holders : Holders) (operations : List Operation) (operation : Operation) :
    trace holders (operations ++ [operation])
      = trace holders operations ++ [.of (run holders operations) operation] := by
  induction operations generalizing holders with
  | nil => rfl
  | cons first operations ih =>
    show Event.of holders first :: trace (holders.step first).2 (operations ++ [operation]) = _
    rw [ih]
    rfl

/-- The item put last, if one was put, else the one before it. -/
theorem lastPut?_concat (slot : Text) (events : List Event) (e : Event) :
    lastPut? slot (events ++ [e]) = (e.put? slot).or (lastPut? slot events) := by
  unfold lastPut?
  rw [List.filterMap_append, List.getLast?_append]
  cases h : e.put? slot <;> simp [h]

/-- What an event filled was filled with what was given, and was there unless it was made. -/
theorem step_of_target? {holders : Holders} {operation : Operation} {slot : Text}
    (h : (Event.of holders operation).target? = some slot) :
    (holders.step operation).2 = Bindings.insert holders slot (holding operation.item?)
      ∧ (operation.isCreation = true
        ∨ (∃ item, operation.item? = some item)
          ∧ ∃ old, Bindings.get? holders slot = some old) := by
  have heffect := step_effect holders operation
  unfold Event.of Event.target? at h
  generalize holders.step operation = result at h heffect
  cases heffect with
  | failed => cases h
  | looked reply hread =>
    cases reply with
    | error => cases h
    | ok => exact absurd (hread.symm.trans h) (Option.some_ne_none slot).symm
  | made htarget hcreation =>
    obtain rfl := Option.some.inj (htarget.symm.trans h)
    exact ⟨rfl, .inl hcreation⟩
  | @filled _ item old htarget hitem hold =>
    obtain rfl := Option.some.inj (htarget.symm.trans h)
    refine ⟨?_, .inr ⟨⟨item, hitem⟩, old, hold⟩⟩
    rw [hitem]
    rfl

/-- A holder that an event did not fill is as it was before. -/
theorem get?_step_of_not_target? {holders : Holders} {operation : Operation} {slot : Text}
    (h : (Event.of holders operation).target? ≠ some slot) :
    Bindings.get? (holders.step operation).2 slot = Bindings.get? holders slot := by
  have heffect := step_effect holders operation
  unfold Event.of Event.target? at h
  generalize holders.step operation = result at h heffect
  cases heffect with
  | failed | looked => rfl
  | made htarget | filled htarget =>
    refine Bindings.get?_insert_of_ne (fun hslot => h ?_) holders _
    rw [hslot]
    exact htarget

/-- A holder that was just made holds what it was made with. -/
theorem get?_step_of_creates {holders : Holders} {operation : Operation} {slot : Text}
    (h : (Event.of holders operation).Creates slot) :
    Bindings.get? (holders.step operation).2 slot
      = some (holding ((Event.of holders operation).put? slot)) := by
  rw [(step_of_target? h.1).1, Bindings.get?_insert, Event.put?, if_pos h.1]
  rfl

/-- Every other holder holds what was put into it if anything was, else it is as it was. -/
theorem get?_step_of_not_creates {holders : Holders} {operation : Operation} {slot : Text}
    (h : ¬ (Event.of holders operation).Creates slot) :
    Bindings.get? (holders.step operation).2 slot
      = (Bindings.get? holders slot).map fun old =>
          (((Event.of holders operation).put? slot).map Holder.of).getD old := by
  by_cases htarget : (Event.of holders operation).target? = some slot
  · -- the holder was there, and was given an item
    obtain ⟨hstep, hkind⟩ := step_of_target? htarget
    obtain ⟨⟨item, hitem⟩, old, hold⟩ := hkind.resolve_left fun hc => h ⟨htarget, hc⟩
    have hput : (Event.of holders operation).put? slot = some item := by
      rw [Event.put?, if_pos htarget]
      exact hitem
    rw [hstep, Bindings.get?_insert, hold, hput, hitem]
    rfl
  · -- nothing was put into the holder
    have hput : (Event.of holders operation).put? slot = none := by
      rw [Event.put?, if_neg htarget]
    rw [get?_step_of_not_target? htarget, hput]
    cases Bindings.get? holders slot <;> rfl

/-! ## §6. Whole runs. -/

/-- The events made the holder, and left the item in it that was put there last since. -/
def Leave (events : List Event) (slot : Text) (item? : Option Item) : Prop :=
  ∃ before birth life, events = before ++ birth :: life
    ∧ birth.Creates slot ∧ (∀ e ∈ life, ¬ e.Creates slot)
    ∧ item? = lastPut? slot (birth :: life)

theorem leave_of_creates {slot : Text} {e : Event} (h : e.Creates slot) (events : List Event) :
    Leave (events ++ [e]) slot (e.put? slot) := by
  refine ⟨events, e, [], rfl, h, fun e' he' => absurd he' List.not_mem_nil, ?_⟩
  show _ = lastPut? slot ([] ++ [e])
  rw [lastPut?_concat]
  exact Option.or_none.symm

theorem Leave.concat {events : List Event} {slot : Text} {item? : Option Item} {e : Event}
    (h : Leave events slot item?) (he : ¬ e.Creates slot) :
    Leave (events ++ [e]) slot ((e.put? slot).or item?) := by
  obtain ⟨before, birth, life, rfl, hbirth, hlife, rfl⟩ := h
  refine ⟨before, birth, life ++ [e], ?_, hbirth, ?_, ?_⟩
  · rw [List.append_assoc, List.cons_append]
  · intro e' he'
    rcases List.mem_append.1 he' with he' | he'
    · exact hlife e' he'
    · exact List.mem_singleton.1 he' ▸ he
  · rw [← List.cons_append, lastPut?_concat]

/-- The item slot takes the item that is put, if one is. -/
theorem item?_getD_of (put? : Option Item) (old : Holder) :
    ((put?.map Holder.of).getD old).item? = put?.or old.item? := by
  cases put? <;> rfl

/-- **The holder of a name, by the trace**: there is none if none was made, and in it is what the
trace left there. -/
theorem get?_run (operations : List Operation) (slot : Text) :
    match Bindings.get? (run [] operations) slot with
    | none => ∀ e ∈ trace [] operations, ¬ e.Creates slot
    | some h => Leave (trace [] operations) slot h.item? := by
  -- on the operations made before the last one
  induction operations using List.reverseRecOn with
  | nil => exact fun e he => absurd he List.not_mem_nil
  | append_singleton operations operation ih =>
    rw [run_concat, trace_concat]
    by_cases hcreates : (Event.of (run [] operations) operation).Creates slot
    · rw [get?_step_of_creates hcreates]
      exact leave_of_creates hcreates _
    · rw [get?_step_of_not_creates hcreates]
      cases hget : Bindings.get? (run [] operations) slot with
      | none =>
        rw [hget] at ih
        intro e he
        rcases List.mem_append.1 he with he | he
        · exact ih e he
        · exact List.mem_singleton.1 he ▸ hcreates
      | some old =>
        rw [hget] at ih
        show Leave _ slot (((_ : Option Item).map Holder.of).getD old).item?
        rw [item?_getD_of]
        exact ih.concat hcreates

/-- There is no holder of a name exactly if none was made. -/
theorem get?_run_eq_none_iff {operations : List Operation} {slot : Text} :
    Bindings.get? (run [] operations) slot = none
      ↔ ∀ e ∈ trace [] operations, ¬ e.Creates slot := by
  have hrun := get?_run operations slot
  cases hget : Bindings.get? (run [] operations) slot with
  | none =>
    rw [hget] at hrun
    exact iff_of_true rfl hrun
  | some h =>
    -- the trace tells when it was made
    rw [hget] at hrun
    obtain ⟨before, birth, life, htrace, hbirth, -⟩ := hrun
    refine iff_of_false (Option.some_ne_none h) fun hnever => hnever birth ?_ hbirth
    rw [htrace]
    exact List.mem_append_right before List.mem_cons_self

/-- **The holders after a run.**  There is one of each name that was made, with the item in it that
was put there last; its shape is the shape of this item, and there is none of either if nothing was
put.  Whatever fails next, and whatever only looks, leaves all of them as they are, in both their
slots. -/
theorem run_history (operations : List Operation) :
    (∀ slot, Bindings.get? (run [] operations) slot = none
      ↔ ∀ e ∈ trace [] operations, ¬ e.Creates slot)
    ∧ (∀ slot h, Bindings.get? (run [] operations) slot = some h →
      Leave (trace [] operations) slot h.item?
      ∧ (h.variant? = some .command ↔ ∃ c, h.item? = some (.command c))
      ∧ (h.variant? = some .codeAction ↔ ∃ a, h.item? = some (.codeAction a))
      ∧ (h.variant? = none ↔ h.item? = none)
      ∧ (h.isSet = true ↔ ∃ item, h.item? = some item)
      ∧ (((run [] operations).step (.get slot)).1 = .error .unset ↔ h.item? = none)
      ∧ (∀ item, ((run [] operations).step (.get slot)).1 = .ok (.item item)
        ↔ h.item? = some item)
      ∧ ∀ value failure, value.item = .error failure →
        ((run [] operations).step (.put slot value)).1 = .error failure)
    ∧ ∀ operation,
      (∃ failure, ((run [] operations).step operation).1 = .error failure) ∨ operation.IsRead →
      ((run [] operations).step operation).2 = run [] operations := by
  refine ⟨fun slot => get?_run_eq_none_iff, fun slot h hget => ?_, fun operation h => ?_⟩
  · have hrun := get?_run operations slot
    rw [hget] at hrun
    have hagrees := allAgree_run operations slot h hget
    obtain ⟨hcommand, haction, hnone⟩ := hagrees.variant?_eq_iff
    refine ⟨hrun, hcommand, haction, hnone, hagrees.isSet_iff, ?_, fun item => ?_,
      fun value failure => step_put_error hget⟩
    all_goals
      rw [step_get hget, Holder.get]
      cases h.item? <;> simp [Except.map]
  · rcases h with ⟨failure, hfailure⟩ | hread
    · exact step_eq_self_of_error hfailure
    · exact step_eq_self_of_isRead hread _

/-- A command with nothing but its title and its identifier. -/
def someCommand : Item := .command ⟨"t", "c", .absent⟩

/-- A holder that is made empty, is given an item in vain, is given a command, and is given
another item in vain. -/
def someOperations : List Operation :=
  [.create "h" none, .unmarshal "h" (.text "["), .set "h" someCommand,
   .unmarshal "h" (.text "[]"), .setOther "h" .null]

/-- After these the command is left, and reading a name nobody made changes nothing. -/
theorem run_history_someOperations :
    (∃ h, Bindings.get? (run [] someOperations) "h" = some h
      ∧ h.item? = some someCommand
      ∧ Leave (trace [] someOperations) "h" h.item?
      ∧ h.variant? = some .command
      ∧ ((run [] someOperations).step (.get "h")).1 ≠ .error .unset)
    ∧ ((run [] someOperations).step (.get "k")).2 = run [] someOperations := by
  obtain ⟨-, hheld, hunchanged⟩ := run_history someOperations
  have hget : Bindings.get? (run [] someOperations) "h" = some (.of someCommand) := rfl
  obtain ⟨hleave, hcommand, -, -, -, hunset, -⟩ := hheld _ _ hget
  refine ⟨⟨_, hget, rfl, hleave, hcommand.2 ⟨_, rfl⟩, fun h => ?_⟩,
    hunchanged (.get "k") (.inr rfl)⟩
  cases hunset.1 h

end EditorWire.Holders
