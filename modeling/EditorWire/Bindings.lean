/-
  EditorWire.Bindings — mappings that remember the order of first insertion.

  A mapping is the list of its bindings, and the value of a key is that of the
  first one.  Binding a key again keeps its place and takes the new value:

      get? (insert m k v) k = some v
      get? (insert m k v) j = get? m j        for another key j
      keys (insert m k v)   = keys m, with k at the end if it was not there

  So a mapping made by insertions alone binds each key once, to the value it was
  given last.
-/
namespace EditorWire.Bindings

variable {κ α : Type} [DecidableEq κ]

/-- The value of a key: that of its first binding. -/
def get? : List (κ × α) → κ → Option α
  | [], _ => none
  | (key, value) :: rest, k => if key = k then some value else get? rest k

/-- The key is bound. -/
def has (m : List (κ × α)) (k : κ) : Bool := (get? m k).isSome

/-- The keys in order. -/
def keys (m : List (κ × α)) : List κ := m.map Prod.fst

/-- Bind a key: in its old place if it has one, else at the end. -/
def insert : List (κ × α) → κ → α → List (κ × α)
  | [], k, v => [(k, v)]
  | (key, old) :: rest, k, v =>
      if key = k then (key, v) :: rest else (key, old) :: insert rest k v

/-- The bindings made one after another. -/
def ofList (bindings : List (κ × α)) : List (κ × α) :=
  bindings.foldl (fun m binding => insert m binding.1 binding.2) []

theorem get?_eq_none_iff {m : List (κ × α)} {k : κ} : get? m k = none ↔ k ∉ keys m := by
  induction m with
  | nil => simp [get?, keys]
  | cons binding rest ih =>
    obtain ⟨key, value⟩ := binding
    simp only [keys] at ih
    by_cases h : key = k
    · simp [get?, keys, h]
    · simp [get?, keys, h, Ne.symm h, ih]

/-- Binding a key gives it the value. -/
theorem get?_insert (m : List (κ × α)) (k : κ) (v : α) : get? (insert m k v) k = some v := by
  induction m with
  | nil => simp [insert, get?]
  | cons binding rest ih =>
    obtain ⟨key, old⟩ := binding
    by_cases hk : key = k
    · simp [insert, get?, hk]
    · simp [insert, get?, hk, ih]

/-- Binding a key leaves every other key alone. -/
theorem get?_insert_of_ne {k j : κ} (h : j ≠ k) (m : List (κ × α)) (v : α) :
    get? (insert m k v) j = get? m j := by
  induction m with
  | nil => simp [insert, get?, Ne.symm h]
  | cons binding rest ih =>
    obtain ⟨key, old⟩ := binding
    by_cases hk : key = k
    · subst hk; simp [insert, get?, Ne.symm h]
    · simp [insert, get?, hk, ih]

/-- A key is added at the end unless it is bound. -/
theorem keys_insert (m : List (κ × α)) (k : κ) (v : α) :
    keys (insert m k v) = if k ∈ keys m then keys m else keys m ++ [k] := by
  induction m with
  | nil => simp [insert, keys]
  | cons binding rest ih =>
    obtain ⟨key, old⟩ := binding
    simp only [keys] at ih
    by_cases hk : key = k
    · simp [insert, keys, hk]
    · simp only [insert, hk, if_false, keys, List.map_cons, ih, List.mem_cons, Ne.symm hk,
        false_or]
      by_cases h : k ∈ rest.map Prod.fst <;> simp [h]

theorem nodup_keys_insert {m : List (κ × α)} (h : (keys m).Nodup) (k : κ) (v : α) :
    (keys (insert m k v)).Nodup := by
  rw [keys_insert]
  split
  · exact h
  · next hk =>
    rw [List.nodup_append]
    refine ⟨h, by simp, ?_⟩
    intro a ha b hb
    simp only [List.mem_singleton] at hb
    subst hb
    intro hab
    exact hk (hab ▸ ha)

/-- Bindings made one after another bind each key once. -/
theorem nodup_keys_ofList (bindings : List (κ × α)) : (keys (ofList bindings)).Nodup := by
  unfold ofList
  suffices ∀ m : List (κ × α), (keys m).Nodup →
      (keys (bindings.foldl (fun m binding => insert m binding.1 binding.2) m)).Nodup from
    this [] (by simp [keys])
  induction bindings with
  | nil => exact fun m h => h
  | cons binding rest ih => exact fun m h => ih _ (nodup_keys_insert h _ _)

end EditorWire.Bindings
