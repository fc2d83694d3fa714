/-
  EditorWire.Proofs.Dispatch.Registrations — what a registry has, by its history.

  The history of a registry is what it was made with and what was registered with
  it since; what was done to other registries is not in it.

      createEmpty   register 1 a d   createDefault   register 1 a d'   register 2 b e
      registry 0:   codeAction                             made with the program
      registry 1:   a d, a d'                              last for a:  d'
      registry 2:   codeAction, b e

  A registry is the mapping of its history: its methods are those of the history,
  each once and in order, and the decoder of a method is the last one of it.

  Main results:
    * `Registries.agree_of_run?` — every registry is the mapping of its history.
    * `Registries.get?_run?_of_untouched` — what is done to others leaves it as it is.
    * `Registries.run?_law` — methods, decoders and independence after any run.
-/
import EditorWire.Dispatch.History
import EditorWire.Proofs.Bindings
import EditorWire.Proofs.Dispatch.Reencoding
import Mathlib.Data.List.Lex

namespace EditorWire

/-! ## §1. Mappings of bindings made one after another. -/

namespace Bindings

variable {κ α : Type} [DecidableEq κ]

theorem mem_keys_ofList {bindings : List (κ × α)} {k : κ} :
    k ∈ keys (ofList bindings) ↔ k ∈ keys bindings := by
  rw [keys_ofList, List.mem_eraseDups]

/-- The last binding of a key is the one that counts. -/
theorem get?_ofList_of_last {before after : List (κ × α)} {k : κ} (v : α) (h : k ∉ keys after) :
    get? (ofList (before ++ (k, v) :: after)) k = some v := by
  induction after using List.reverseRecOn with
  | nil => rw [ofList_concat, get?_insert]
  | append_singleton after binding ih =>
    rw [keys, List.map_append, List.mem_append, not_or] at h
    obtain ⟨hafter, hlast⟩ := h
    have hne : k ≠ binding.1 := by simpa using hlast
    rw [← List.cons_append, ← List.append_assoc, ofList_concat, get?_insert_of_ne hne]
    exact ih hafter

end Bindings

/-! ## §2. One registry. -/

namespace Registry

variable {r : Registry}

/-- The methods are the keys, each once and in strictly ascending order. -/
theorem methods_strictlyAscending (h : (Bindings.keys r).Nodup) : r.methods.Pairwise (· < ·) := by
  have hperm : r.methods.Perm (Bindings.keys r) := List.mergeSort_perm _ _
  have hsorted : r.methods.Pairwise fun a b => (!decide (b < a)) = true := by
    refine List.pairwise_mergeSort (fun a b c hab hbc => ?_) (fun a b => ?_) _
    · simp only [Bool.not_eq_true', decide_eq_false_iff_not, not_lt] at hab hbc ⊢
      exact le_trans hab hbc
    · simp only [Bool.or_eq_true, Bool.not_eq_true', decide_eq_false_iff_not, not_lt]
      exact le_total a b
  have hnodup : r.methods.Pairwise (· ≠ ·) := hperm.nodup_iff.2 h
  refine (hsorted.and hnodup).imp ?_
  rintro a b ⟨hle, hne⟩
  simp only [Bool.not_eq_true', decide_eq_false_iff_not, not_lt] at hle
  exact lt_of_le_of_ne hle hne

theorem mem_methods_iff {method : Text} : method ∈ r.methods ↔ method ∈ Bindings.keys r :=
  (List.mergeSort_perm _ _).mem_iff

/-- Without a decoder the payload is not looked at. -/
theorem decode_of_get?_eq_none {method : Text} (h : r.get? method = none) (payload : Payload) :
    r.decode method payload = .error (.decode (.noDecoder method)) := by
  unfold decode
  rw [h]

theorem decode_of_get?_eq_some {method : Text} {decoder : Decoder}
    (h : r.get? method = some decoder) (payload : Payload) :
    r.decode method payload = Holder.load payload >>= decoder := by
  unfold decode
  rw [h]

end Registry

/-- The response to a code action request is null, or it is decoded like any array of items. -/
theorem Decoder.load_bind_codeActions (payload : Payload) :
    (Holder.load payload = .ok .null →
        (Holder.load payload >>= Decoder.codeActions) = .ok (.value .null))
      ∧ (Holder.load payload ≠ .ok .null →
        (Holder.load payload >>= Decoder.codeActions)
          = (Holder.listOfJson payload).map .items) := by
  unfold Holder.listOfJson
  cases Holder.load payload with
  | error failure =>
    refine ⟨fun h => ?_, fun _ => rfl⟩
    cases h
  | ok v =>
    constructor
    · intro h
      obtain rfl := Except.ok.inj h
      rfl
    · intro h
      show Decoder.codeActions v = (Holder.decodeList v).map .items
      unfold Decoder.codeActions
      split
      · exact absurd rfl h
      · rfl

/-! ## §3. Histories. -/

namespace Registries

/-- What the registry every program starts with is made with. -/
def defaultRegistrations : List (Text × Decoder) :=
  [(Registry.codeActionMethod, Decoder.codeActions)]

/-- What a registry is made with, if the operation makes one. -/
def Operation.made? : Operation → Option (List (Text × Decoder))
  | .createEmpty => some []
  | .createDefault => some defaultRegistrations
  | .register .. => none

/-- What the operation registers with the registry of the place. -/
def Operation.registered? (place : Nat) : Operation → Option (Text × Decoder)
  | .register other method decoder => if other = place then some (method, decoder) else none
  | _ => none

/-- What the registries are made with, in the order in which they are made. -/
def made (operations : List Operation) : List (List (Text × Decoder)) :=
  defaultRegistrations :: operations.filterMap Operation.made?

/-- The history of a registry: what it is made with, and what is registered with it. -/
def registrations (operations : List Operation) (place : Nat) : List (Text × Decoder) :=
  (made operations)[place]?.getD [] ++ operations.filterMap (Operation.registered? place)

theorem run?_concat (rs : Registries) (operations : List Operation) (operation : Operation) :
    run? rs (operations ++ [operation]) = (run? rs operations).bind (·.step? operation) := by
  unfold run?
  rw [List.foldlM_append]
  cases operations.foldlM step? rs with
  | none => rfl
  | some rs' => exact Option.bind_fun_some _

/-! ## §4. One operation. -/

/-- Creating puts the registry behind the others; registering changes one of them. -/
theorem step?_cases {rs rs' : Registries} {operation : Operation}
    (h : rs.step? operation = some rs') :
    (∃ made, operation.made? = some made ∧ rs' = rs ++ [Bindings.ofList made]
        ∧ ∀ place, operation.registered? place = none)
      ∨ ∃ place method decoder r, rs[place]? = some r ∧ operation.made? = none
        ∧ operation.registered? place = some (method, decoder)
        ∧ (∀ other, other ≠ place → operation.registered? other = none)
        ∧ rs' = rs.set place (r.register method decoder) := by
  cases operation with
  | createEmpty => exact .inl ⟨_, rfl, (Option.some.inj h).symm, fun _ => rfl⟩
  | createDefault => exact .inl ⟨_, rfl, (Option.some.inj h).symm, fun _ => rfl⟩
  | register place method decoder =>
    obtain ⟨r, hr, rfl⟩ := Option.map_eq_some_iff.1 h
    exact .inr ⟨place, method, decoder, r, hr, rfl, if_pos rfl, fun other hne => if_neg hne.symm, rfl⟩

/-- **An operation that does not register with it leaves a registry as it is.** -/
theorem get?_step?_of_untouched {rs rs' : Registries} {operation : Operation} {place : Nat}
    {r : Registry} (h : rs.step? operation = some rs') (hr : rs[place]? = some r)
    (huntouched : operation.registered? place = none) : rs'[place]? = some r := by
  rcases step?_cases h with ⟨made, -, rfl, -⟩ | ⟨other, method, decoder, r', -, -, hother, -, rfl⟩
  · have hlt : place < rs.length := (List.getElem?_eq_some_iff.1 hr).1
    rw [List.getElem?_append_left hlt]
    exact hr
  · have hne : other ≠ place := by
      rintro rfl
      rw [huntouched] at hother
      cases hother
    rw [List.getElem?_set_ne hne]
    exact hr

/-! ## §5. Whole runs. -/

/-- The registries are the mappings of their histories, and nothing is registered beyond them. -/
structure Agree (operations : List Operation) (rs : Registries) : Prop where
  get?_eq : ∀ place, rs[place]? = ((made operations)[place]?).map fun first =>
    Bindings.ofList (first ++ operations.filterMap (Operation.registered? place))
  beyond : ∀ place, rs.length ≤ place →
    operations.filterMap (Operation.registered? place) = []

theorem agree_start : Agree [] start where
  get?_eq
    | 0 => rfl
    | _ + 1 => rfl
  beyond := fun _ _ => rfl

theorem Agree.length_made {operations : List Operation} {rs : Registries}
    (h : Agree operations rs) : (made operations).length = rs.length := by
  have hle : ∀ n, (made operations).length ≤ n ↔ rs.length ≤ n := by
    intro n
    rw [← List.getElem?_eq_none_iff, ← List.getElem?_eq_none_iff, h.get?_eq,
      Option.map_eq_none_iff]
  exact Nat.le_antisymm ((hle _).2 (Nat.le_refl _)) ((hle _).1 (Nat.le_refl _))

theorem made_concat (operations : List Operation) (operation : Operation) :
    made (operations ++ [operation]) = made operations ++ operation.made?.toList := by
  unfold made
  rw [List.filterMap_append, List.cons_append]
  cases h : operation.made? <;> simp [h]

theorem registered_concat (operations : List Operation) (operation : Operation) (place : Nat) :
    (operations ++ [operation]).filterMap (Operation.registered? place)
      = operations.filterMap (Operation.registered? place)
        ++ (operation.registered? place).toList := by
  rw [List.filterMap_append]
  cases h : operation.registered? place <;> simp [h]

/-- **What an operation does to the registries it does to their histories.** -/
theorem Agree.step {operations : List Operation} {rs rs' : Registries} {operation : Operation}
    (h : Agree operations rs) (hstep : rs.step? operation = some rs') :
    Agree (operations ++ [operation]) rs' := by
  rcases step?_cases hstep with ⟨first, hmade, rfl, hnone⟩ |
    ⟨place, method, decoder, r, hr, hmade, hregistered, hothers, rfl⟩
  · -- nothing was registered yet with the one that is made
    refine ⟨fun place => ?_, fun place hplace => ?_⟩
    · rw [made_concat, registered_concat, hmade, hnone, Option.toList_none, List.append_nil,
        Option.toList_some]
      rcases Nat.lt_trichotomy place rs.length with hlt | rfl | hlt
      · rw [List.getElem?_append_left hlt, List.getElem?_append_left (h.length_made ▸ hlt)]
        exact h.get?_eq place
      · rw [List.getElem?_concat_length, ← h.length_made, List.getElem?_concat_length,
          h.beyond _ (Nat.le_of_eq h.length_made.symm)]
        simp
      · rw [List.getElem?_eq_none (by simp; omega),
          List.getElem?_eq_none (by simp [h.length_made]; omega)]
        rfl
    · rw [registered_concat, hnone, Option.toList_none, List.append_nil]
      rw [List.length_append] at hplace
      exact h.beyond place (by omega)
  · have hlt : place < rs.length := (List.getElem?_eq_some_iff.1 hr).1
    refine ⟨fun other => ?_, fun other hother => ?_⟩
    · rw [made_concat, registered_concat, hmade, Option.toList_none, List.append_nil]
      by_cases hother : other = place
      · subst hother
        have hfirst := h.get?_eq other
        rw [hr] at hfirst
        obtain ⟨first, hfirst, heq⟩ := Option.map_eq_some_iff.1 hfirst.symm
        rw [List.getElem?_set_self hlt, hfirst, hregistered, Option.map_some, Option.toList_some,
          ← List.append_assoc, Bindings.ofList_concat, heq]
        rfl
      · rw [List.getElem?_set_ne (Ne.symm hother), hothers other hother, Option.toList_none,
          List.append_nil]
        exact h.get?_eq other
    · have hne : other ≠ place := by
        rintro rfl
        rw [List.length_set] at hother
        omega
      rw [registered_concat, hothers other hne, Option.toList_none, List.append_nil]
      exact h.beyond other (by simpa using hother)

/-- **After a run every registry is the mapping of its history.** -/
theorem agree_of_run? {operations : List Operation} {rs : Registries}
    (h : run? start operations = some rs) : Agree operations rs := by
  -- on the operations made before the last one
  induction operations using List.reverseRecOn generalizing rs with
  | nil =>
    obtain rfl := Option.some.inj h
    exact agree_start
  | append_singleton operations operation ih =>
    rw [run?_concat, Option.bind_eq_some_iff] at h
    obtain ⟨rs', hrun, hstep⟩ := h
    exact (ih hrun).step hstep

theorem eq_ofList_registrations {operations : List Operation} {rs : Registries} {place : Nat}
    {r : Registry} (h : run? start operations = some rs) (hr : rs[place]? = some r) :
    r = Bindings.ofList (registrations operations place) := by
  have hfirst := (agree_of_run? h).get?_eq place
  rw [hr] at hfirst
  obtain ⟨first, hmade, rfl⟩ := Option.map_eq_some_iff.1 hfirst.symm
  unfold registrations
  rw [hmade, Option.getD_some]

/-- **A run that does not register with it leaves a registry as it is.** -/
theorem get?_run?_of_untouched {operations : List Operation} {rs rs' : Registries} {place : Nat}
    {r : Registry} (h : run? rs operations = some rs') (hr : rs[place]? = some r)
    (huntouched : ∀ operation ∈ operations, operation.registered? place = none) :
    rs'[place]? = some r := by
  induction operations generalizing rs with
  | nil =>
    obtain rfl := Option.some.inj h
    exact hr
  | cons operation operations ih =>
    obtain ⟨hfirst, hrest⟩ := List.forall_mem_cons.1 huntouched
    obtain ⟨rs'', hstep, hrun⟩ := Option.bind_eq_some_iff.1 h
    exact ih hrun (get?_step?_of_untouched hstep hr hfirst) hrest

/-! ## §6. The law. -/

/-- The decoder was registered for the method, and none for it since. -/
def IsLast (history : List (Text × Decoder)) (method : Text) (decoder : Decoder) : Prop :=
  ∃ before after, history = before ++ (method, decoder) :: after ∧ method ∉ Bindings.keys after

/-- A method of the history has a last decoder. -/
theorem exists_isLast {history : List (Text × Decoder)} {method : Text}
    (h : method ∈ Bindings.keys history) : ∃ decoder, IsLast history method decoder := by
  rw [← Bindings.mem_keys_ofList] at h
  cases hget : Bindings.get? (Bindings.ofList history) method with
  | none => exact absurd h (Bindings.get?_eq_none_iff.1 hget)
  | some decoder => exact ⟨decoder, Bindings.exists_last_of_get?_ofList hget⟩

/-- And that is what decodes its payloads. -/
theorem IsLast.decode_eq {history : List (Text × Decoder)} {method : Text} {decoder : Decoder}
    (h : IsLast history method decoder) (payload : Payload) :
    Registry.decode (Bindings.ofList history) method payload
      = Holder.load payload >>= decoder := by
  obtain ⟨before, after, rfl, hafter⟩ := h
  exact Registry.decode_of_get?_eq_some (Bindings.get?_ofList_of_last decoder hafter) payload

/-- **Every registry after every run.**  Its methods are those of its history, each once in strictly
ascending order.  A method that was never registered is refused whatever the payload is, and the
decoder that was registered last is given the loaded payload.  Where that is the decoder of code
actions, null gives null and every other payload is decoded like any array of items.  What is done
next without registering with it leaves the registry as it is. -/
theorem run?_law {operations : List Operation} {rs : Registries} {place : Nat} {r : Registry}
    (h : run? start operations = some rs) (hr : rs[place]? = some r) :
    (r.methods.Pairwise (· < ·)
        ∧ ∀ method, method ∈ r.methods ↔ method ∈ Bindings.keys (registrations operations place))
      ∧ (∀ method, method ∉ Bindings.keys (registrations operations place) →
        ∀ payload, r.decode method payload = .error (.decode (.noDecoder method)))
      ∧ (∀ method ∈ Bindings.keys (registrations operations place),
        ∃ decoder, IsLast (registrations operations place) method decoder)
      ∧ (∀ method decoder, IsLast (registrations operations place) method decoder →
        ∀ payload, r.decode method payload = Holder.load payload >>= decoder)
      ∧ (∀ method, IsLast (registrations operations place) method Decoder.codeActions →
        ∀ payload,
          (Holder.load payload = .ok .null → r.decode method payload = .ok (.value .null))
            ∧ (Holder.load payload ≠ .ok .null →
              r.decode method payload = (Holder.listOfJson payload).map .items))
      ∧ ∀ more rs', run? rs more = some rs' →
        (∀ operation ∈ more, operation.registered? place = none) → rs'[place]? = some r := by
  obtain rfl := eq_ofList_registrations h hr
  refine ⟨⟨Registry.methods_strictlyAscending (Bindings.nodup_keys_ofList _), fun method => ?_⟩,
    fun method hmethod payload => ?_, fun method => exists_isLast,
    fun method decoder hlast => hlast.decode_eq, fun method hlast payload => ?_,
    fun more rs' hmore => get?_run?_of_untouched hmore hr⟩
  · rw [Registry.mem_methods_iff, Bindings.mem_keys_ofList]
  · refine Registry.decode_of_get?_eq_none (Bindings.get?_eq_none_iff.2 ?_) payload
    rw [Bindings.mem_keys_ofList]
    exact hmethod
  · rw [hlast.decode_eq]
    exact Decoder.load_bind_codeActions payload

/-- Two methods of an empty registry, one registered again, between operations on two others. -/
def interleaved : List Operation :=
  [.createEmpty, .register 1 "b" Decoder.identity, .createDefault,
   .register 2 "a" Decoder.singleItem, .register 1 "a" Decoder.codeActions,
   .register 0 "b" (Decoder.constant .null), .register 1 "b" Decoder.singleItem]

/-- The registry has its own registrations, and what is registered with the one every program
starts with does not change it. -/
theorem run?_law_interleaved :
    ∃ rs r, run? start interleaved = some rs ∧ rs[1]? = some r
      ∧ r.methods.Pairwise (· < ·)
      ∧ (∀ method : Text, method ∈ r.methods ↔ method = "b" ∨ method = "a" ∨ method = "b")
      ∧ (∀ payload, r.decode Registry.codeActionMethod payload
        = .error (.decode (.noDecoder Registry.codeActionMethod)))
      ∧ (∀ payload, r.decode "b" payload = Holder.load payload >>= Decoder.singleItem)
      ∧ r.decode "a" (.text " null") = .ok (.value .null)
      ∧ ∃ rs', run? rs [.register 0 "a" Decoder.identity] = some rs' ∧ rs'[1]? = some r := by
  have hhistory : registrations interleaved 1
      = ([("b", Decoder.identity), ("a", Decoder.codeActions), ("b", Decoder.singleItem)] :
        List (Text × Decoder)) := rfl
  have hload : Holder.load (.text " null") = .ok .null := by cbv
  refine ⟨_, _, rfl, rfl, ?_⟩
  obtain ⟨⟨hascending, hmethods⟩, hunknown, -, hlast, hcodeActions, hothers⟩ :=
    @run?_law interleaved _ 1 _ rfl rfl
  rw [hhistory] at hmethods hunknown hlast hcodeActions
  refine ⟨hascending, fun method => ?_, hunknown _ (by decide), ?_, ?_, _, rfl,
    hothers [.register 0 "a" Decoder.identity] _ rfl (by decide)⟩
  · rw [hmethods]
    simp [Bindings.keys]
  · exact hlast "b" Decoder.singleItem
      ⟨[("b", Decoder.identity), ("a", Decoder.codeActions)], [], rfl, List.not_mem_nil⟩
  · exact (hcodeActions "a" ⟨[("b", Decoder.identity)], [("b", Decoder.singleItem)], rfl, by decide⟩
      (.text " null")).1 hload

end Registries

end EditorWire
