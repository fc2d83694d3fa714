/-
  EditorWire.Proofs.Bindings — mappings made along a list of names.

  `collect names value?` binds the names that have a value, in the order of the
  names, and `restrict names m` is what a mapping binds them to:

      get? (collect names value?) k  =  value? k        for a name k, else none
      keys (collect names value?)    <+ names
      restrict names m               =  m               if keys m <+ names

  Main results:
    * `get?_collect`, `keys_collect`, `restrict_eq_self` — these three.
    * `ofList_eq_self` — bindings of keys that are distinct stay as they are.
    * `keys_ofList`, `exists_last_of_get?_ofList` — a key that is bound several times keeps its
      first place and its last value.
-/
import EditorWire.Bindings
import Mathlib.Data.List.Basic
import Mathlib.Data.List.Induction

namespace EditorWire.Bindings

variable {κ α : Type}

/-! ## §1. Mappings collected along names. -/

/-- The bindings of the names that have a value, in the order of the names. -/
def collect (names : List κ) (value? : κ → Option α) : List (κ × α) :=
  names.filterMap fun k => (value? k).map fun v => (k, v)

theorem collect_cons (k : κ) (names : List κ) (value? : κ → Option α) :
    collect (k :: names) value?
      = ((value? k).map fun v => (k, v)).toList ++ collect names value? := by
  unfold collect
  rw [List.filterMap_cons]
  cases value? k <;> rfl

theorem mem_collect_iff {names : List κ} {value? : κ → Option α} {b : κ × α} :
    b ∈ collect names value? ↔ b.1 ∈ names ∧ value? b.1 = some b.2 := by
  unfold collect
  rw [List.mem_filterMap]
  constructor
  · rintro ⟨k, hk, h⟩
    obtain ⟨v, hv, rfl⟩ := Option.map_eq_some_iff.1 h
    exact ⟨hk, hv⟩
  · rintro ⟨hname, hvalue⟩
    refine ⟨b.1, hname, ?_⟩
    rw [hvalue]
    rfl

theorem collect_congr {names : List κ} {value? other? : κ → Option α}
    (h : ∀ k ∈ names, value? k = other? k) : collect names value? = collect names other? := by
  unfold collect
  exact List.filterMap_congr fun k hk => by rw [h k hk]

/-- The keys are names, in the order of the names. -/
theorem keys_collect (names : List κ) (value? : κ → Option α) :
    List.Sublist (keys (collect names value?)) names := by
  induction names with
  | nil => exact List.Sublist.refl []
  | cons k names ih =>
    rw [collect_cons]
    cases value? k with
    | none => exact ih.cons k
    | some v => exact ih.cons_cons k

variable [DecidableEq κ]

/-- A name is bound to its value, and nothing else is bound. -/
theorem get?_collect (names : List κ) (value? : κ → Option α) (k : κ) :
    get? (collect names value?) k = if k ∈ names then value? k else none := by
  induction names with
  | nil => rfl
  | cons name names ih =>
    rw [collect_cons]
    cases hname : value? name with
    | none =>
      show get? (collect names value?) k = _
      rw [ih]
      by_cases hk : k = name
      · subst hk
        rw [hname, if_pos List.mem_cons_self, ite_self]
      · simp only [List.mem_cons, hk, false_or]
    | some v =>
      show get? ((name, v) :: collect names value?) k = _
      rw [get?, ih]
      by_cases hk : name = k
      · subst hk
        rw [if_pos rfl, if_pos List.mem_cons_self, hname]
      · rw [if_neg hk]
        simp only [List.mem_cons, Ne.symm hk, false_or]

/-! ## §2. Bindings made one after another. -/

/-- Binding a key to the value it has changes nothing. -/
theorem insert_eq_self {m : List (κ × α)} {k : κ} {v : α} (h : get? m k = some v) :
    insert m k v = m := by
  induction m with
  | nil => cases h
  | cons binding rest ih =>
    obtain ⟨key, old⟩ := binding
    rw [get?] at h
    rw [insert]
    split at h
    · next hk =>
      obtain rfl := Option.some.inj h
      rw [if_pos hk]
    · next hk => rw [if_neg hk, ih h]

theorem insert_of_not_mem {m : List (κ × α)} {k : κ} (h : k ∉ keys m) (v : α) :
    insert m k v = m ++ [(k, v)] := by
  induction m with
  | nil => rfl
  | cons binding m ih =>
    obtain ⟨key, old⟩ := binding
    have hkey : key ≠ k ∧ k ∉ keys m := by
      rw [keys, List.map_cons, List.mem_cons, not_or] at h
      exact ⟨Ne.symm h.1, h.2⟩
    rw [insert, if_neg hkey.1, ih hkey.2]
    rfl

/-- Bindings of distinct keys stay as they are. -/
theorem ofList_eq_self {bindings : List (κ × α)} (h : (keys bindings).Nodup) :
    ofList bindings = bindings := by
  -- over the bindings made so far, none of whose keys comes again
  have hfold : ∀ made : List (κ × α), (keys (made ++ bindings)).Nodup →
      bindings.foldl (fun m binding => insert m binding.1 binding.2) made = made ++ bindings := by
    clear h
    induction bindings with
    | nil => exact fun made _ => (List.append_nil made).symm
    | cons binding bindings ih =>
      intro made hmade
      have hnot : binding.1 ∉ keys made := by
        rw [keys, List.map_append, List.nodup_append] at hmade
        intro hmem
        exact hmade.2.2 _ hmem _ List.mem_cons_self rfl
      have hnext : made ++ binding :: bindings = made ++ [binding] ++ bindings := by
        rw [List.append_assoc]
        rfl
      rw [List.foldl_cons, insert_of_not_mem hnot, hnext]
      refine ih _ ?_
      rw [← hnext]
      exact hmade
  exact hfold [] h

/-- What holds of the values bound holds of them when one more is. -/
theorem forall_insert {p : α → Prop} {m : List (κ × α)} {k : κ} {v : α} (hv : p v)
    (hm : ∀ b ∈ m, p b.2) : ∀ b ∈ insert m k v, p b.2 := by
  induction m with
  | nil => exact List.forall_mem_singleton.2 hv
  | cons binding m ih =>
    obtain ⟨key, old⟩ := binding
    rw [List.forall_mem_cons] at hm
    rw [insert]
    split
    · exact List.forall_mem_cons.2 ⟨hv, hm.2⟩
    · exact List.forall_mem_cons.2 ⟨hm.1, ih hm.2⟩

theorem forall_ofList {p : α → Prop} {bindings : List (κ × α)} (h : ∀ b ∈ bindings, p b.2) :
    ∀ b ∈ ofList bindings, p b.2 := by
  have hfold : ∀ made : List (κ × α), (∀ b ∈ made, p b.2) →
      ∀ b ∈ bindings.foldl (fun m binding => insert m binding.1 binding.2) made, p b.2 := by
    induction bindings with
    | nil => exact fun made hmade => hmade
    | cons binding bindings ih =>
      intro made hmade
      rw [List.forall_mem_cons] at h
      exact ih h.2 _ (forall_insert h.1 hmade)
  exact hfold [] fun b hb => absurd hb List.not_mem_nil

/-! ## §3. What a key is bound to. -/

theorem mem_of_get? {m : List (κ × α)} {k : κ} {v : α} (h : get? m k = some v) : (k, v) ∈ m := by
  induction m with
  | nil => cases h
  | cons binding m ih =>
    obtain ⟨key, value⟩ := binding
    rw [get?] at h
    split at h
    · next hkey =>
      rw [hkey, Option.some.inj h]
      exact List.mem_cons_self
    · exact List.mem_cons_of_mem _ (ih h)

/-- Where each key is bound once, the value of a key is that of its binding. -/
theorem get?_of_mem {m : List (κ × α)} (hkeys : (keys m).Nodup) {k : κ} {v : α}
    (h : (k, v) ∈ m) : get? m k = some v := by
  induction m with
  | nil => cases h
  | cons binding m ih =>
    obtain ⟨key, value⟩ := binding
    obtain ⟨hnot, hrest⟩ := List.nodup_cons.1 hkeys
    rw [get?]
    rcases List.mem_cons.1 h with heq | h
    · obtain ⟨rfl, rfl⟩ := Prod.mk.inj heq
      rw [if_pos rfl]
    · have hmem : k ∈ keys m := List.mem_map.2 ⟨(k, v), h, rfl⟩
      have hne : key ≠ k := by
        intro heq
        exact hnot (heq ▸ hmem)
      rw [if_neg hne, ih hrest h]

/-! ## §4. Keys that are bound several times. -/

theorem ofList_concat (bindings : List (κ × α)) (binding : κ × α) :
    ofList (bindings ++ [binding]) = insert (ofList bindings) binding.1 binding.2 := by
  simp [ofList]

/-- **The place of a key is that of its first binding.** -/
theorem keys_ofList (bindings : List (κ × α)) :
    keys (ofList bindings) = (keys bindings).eraseDups := by
  -- on the bindings made before the last one
  induction bindings using List.reverseRecOn with
  | nil => rfl
  | append_singleton bindings binding ih =>
    have hkeys : keys (bindings ++ [binding]) = keys bindings ++ [binding.1] := by simp [keys]
    rw [ofList_concat, keys_insert, ih, hkeys, List.eraseDups_append]
    by_cases h : binding.1 ∈ keys bindings
    · simp [h, List.removeAll]
    · simp [h, List.removeAll, List.eraseDups_cons]

/-- **The value of a key is that of its last binding.** -/
theorem exists_last_of_get?_ofList {bindings : List (κ × α)} {k : κ} {v : α}
    (h : get? (ofList bindings) k = some v) :
    ∃ before after, bindings = before ++ (k, v) :: after ∧ k ∉ keys after := by
  induction bindings using List.reverseRecOn with
  | nil => cases h
  | append_singleton bindings binding ih =>
    obtain ⟨key, value⟩ := binding
    rw [ofList_concat] at h
    by_cases hkey : k = key
    · subst hkey
      rw [get?_insert] at h
      obtain rfl := Option.some.inj h
      exact ⟨bindings, [], rfl, List.not_mem_nil⟩
    · rw [get?_insert_of_ne hkey] at h
      obtain ⟨before, after, rfl, hafter⟩ := ih h
      refine ⟨before, after ++ [(key, value)], by simp, ?_⟩
      simpa [keys] using ⟨by simpa [keys] using hafter, hkey⟩

/-! ## §5. Restriction. -/

/-- The bindings of the names, in the order of the names. -/
def restrict (names : List κ) (m : List (κ × α)) : List (κ × α) := collect names (get? m)

/-- A mapping of some of the names, in their order, is its own restriction. -/
theorem restrict_eq_self {names : List κ} {m : List (κ × α)} (hnames : names.Nodup)
    (hkeys : List.Sublist (keys m) names) : restrict names m = m := by
  unfold restrict
  induction names generalizing m with
  | nil =>
    have hm : m = [] := List.map_eq_nil_iff.1 (List.sublist_nil.1 hkeys)
    rw [hm]
    rfl
  | cons name names ih =>
    rw [List.nodup_cons] at hnames
    rw [collect_cons]
    cases m with
    | nil =>
      exact ih hnames.2 (List.nil_sublist names)
    | cons binding m =>
      obtain ⟨key, value⟩ := binding
      rcases List.sublist_cons_iff.1 hkeys with hkeys | ⟨r, heq, hr⟩
      · -- the name is not bound
        have hnot : name ∉ keys ((key, value) :: m) := fun hmem => hnames.1 (hkeys.subset hmem)
        rw [get?_eq_none_iff.2 hnot]
        exact ih hnames.2 hkeys
      · obtain ⟨hkey, htail⟩ := List.cons.inj heq
        have hget : get? ((key, value) :: m) name = some value := by
          rw [get?, if_pos hkey]
        -- the name does not come again, so the others do not see its binding
        have hcongr : collect names (get? ((key, value) :: m)) = collect names (get? m) := by
          refine collect_congr fun k hk => ?_
          rw [get?, if_neg]
          intro hkk
          exact hnames.1 (hkey ▸ hkk ▸ hk)
        have hkeysm : List.Sublist (keys m) names := by
          rw [keys, htail]
          exact hr
        rw [hget, hcongr, ih hnames.2 hkeysm]
        show (name, value) :: m = (key, value) :: m
        rw [← hkey]

end EditorWire.Bindings
