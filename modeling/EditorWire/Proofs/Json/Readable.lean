/-
  EditorWire.Proofs.Json.Readable — values whose text is not refused.

  The payload reader refuses integers of more than 4300 digits, and arrays and
  objects that lie inside one another deeper than there are levels left.  Every
  one of them takes a level, so what an array or object holds has to be readable
  with one level less, and an empty one still needs that level:

      IsReadable (n + 1) (array items)  ↔  IsReadable n v  for every item v

  Main result:
    * `everywhere_isShort_of_load` — what is loaded has no integer that is refused
      when it is read again.
-/
import EditorWire.Proofs.Json.Reading
import EditorWire.Proofs.Number.Digits

namespace EditorWire.Json

/-! ## §1. Readable values. -/

/-- An integer, if it is one, of no more digits than are read. -/
def IsShort : Json → Prop
  | .int i => (Decimal.ofNat i.natAbs).length ≤ 4300
  | _ => True

instance : DecidablePred IsShort
  | .int i => inferInstanceAs (Decidable ((Decimal.ofNat i.natAbs).length ≤ 4300))
  | .null | .bool _ | .float _ | .string _ | .array _ | .object _ => inferInstanceAs (Decidable True)

/-- The text of the value is read where `n` levels are left for arrays and objects. -/
structure IsReadable (n : Nat) (v : Json) : Prop where
  short : Everywhere IsShort v
  shallow : depth v ≤ n

theorem isReadable_array_iff {n : Nat} {items : List Json} :
    IsReadable n (.array items) ↔ ∃ k, n = k + 1 ∧ ∀ v ∈ items, IsReadable k v := by
  constructor
  · rintro ⟨hshort, hshallow⟩
    rw [depth] at hshallow
    rw [everywhere_array_iff] at hshort
    have hitems : depthItems items ≤ n - 1 := by omega
    exact ⟨n - 1, by omega, fun v hv => ⟨hshort.2 v hv, depthItems_le_iff.1 hitems v hv⟩⟩
  · rintro ⟨k, rfl, h⟩
    refine ⟨everywhere_array_iff.2 ⟨trivial, fun v hv => (h v hv).short⟩, ?_⟩
    rw [depth]
    exact Nat.succ_le_succ (depthItems_le_iff.2 fun v hv => (h v hv).shallow)

theorem isReadable_object_iff {n : Nat} {members : Members} :
    IsReadable n (.object members) ↔ ∃ k, n = k + 1 ∧ ∀ m ∈ members, IsReadable k m.2 := by
  constructor
  · rintro ⟨hshort, hshallow⟩
    rw [depth] at hshallow
    rw [everywhere_object_iff] at hshort
    have hmembers : depthMembers members ≤ n - 1 := by omega
    exact ⟨n - 1, by omega, fun m hm => ⟨hshort.2 m hm, depthMembers_le_iff.1 hmembers m hm⟩⟩
  · rintro ⟨k, rfl, h⟩
    refine ⟨everywhere_object_iff.2 ⟨trivial, fun m hm => (h m hm).short⟩, ?_⟩
    rw [depth]
    exact Nat.succ_le_succ (depthMembers_le_iff.2 fun m hm => (h m hm).shallow)

/-! ## §2. What is read is short. -/

variable {levels : Nat}

/-- The digits in front of the point are some, and digits all of them. -/
theorem allDigits_of_readWhole? {t whole r : Text} (h : readWhole? t = some (whole, r)) :
    whole ≠ [] ∧ Decimal.AllDigits whole := by
  unfold readWhole? at h
  split at h
  · obtain ⟨rfl, -⟩ := Prod.mk.inj (Option.some.inj h)
    exact ⟨List.cons_ne_nil _ _, List.forall_mem_singleton.2 rfl⟩
  · next c s =>
    split at h
    · next hc =>
      obtain ⟨rfl, -⟩ := Prod.mk.inj (Option.some.inj h)
      exact ⟨List.cons_ne_nil _ _,
        List.forall_mem_cons.2 ⟨hc, fun x hx => List.all_eq_true.1 List.all_takeWhile x hx⟩⟩
    · cases h
  · cases h

theorem allDigits_of_readNumeral? {t r : Text} {n : Numeral} (h : readNumeral? t = some (n, r)) :
    n.whole ≠ [] ∧ Decimal.AllDigits n.whole := by
  obtain ⟨_, _, _, _, hwhole, _⟩ := readNumeral?_eq_some_iff.1 h
  exact allDigits_of_readWhole? hwhole

/-- A number that is not refused when it is read is not refused when it is read again. -/
theorem everywhere_isShort_of_value {t r : Text} {n : Numeral} {v : Json}
    (hread : readNumeral? t = some (n, r)) (h : n.value (payloadDialect levels) = .ok v) :
    Everywhere IsShort v := by
  obtain ⟨hne, hdigits⟩ := allDigits_of_readNumeral? hread
  unfold Numeral.value at h
  split at h
  · cases h
  next hlong =>
  split at h
  · next hinteger =>
    rw [← Except.ok.inj h]
    refine everywhere_atom ?_ trivial
    -- an integer has no more digits than stood there, and those were not too many
    have hwhole : n.whole.length ≤ 4300 := by
      simpa [payloadDialect, hinteger] using hlong
    have hsize : ∀ i : Int, i.natAbs = Decimal.value n.whole → IsShort (.int i) := by
      intro i hi
      show (Decimal.ofNat i.natAbs).length ≤ 4300
      rw [hi]
      exact Nat.le_trans (Decimal.length_ofNat_value_le hne hdigits) hwhole
    refine hsize _ ?_
    split <;> omega
  · rw [← Except.ok.inj h]
    exact everywhere_atom trivial trivial

/-- The reader of payloads sees to it that no integer it gives is too long. -/
theorem isSeenTo_isShort : IsSeenTo (payloadDialect levels) IsShort where
  string := fun _ => trivial
  array := fun _ => trivial
  object := fun _ => trivial
  atom := gives_readAtom (by decide) fun _ _ _ _ hread hv => everywhere_isShort_of_value hread hv

/-- **What is loaded is short.** -/
theorem everywhere_isShort_of_load {payload : Payload} {v : Json} (h : load payload levels = .ok v) :
    Everywhere IsShort v :=
  isSeenTo_isShort.everywhere_of_load h

end EditorWire.Json
