/-
  EditorWire.Proofs.Dispatch.Spellings — payloads in any encoding.

  A payload does not say which encoding it is in.  A text that is read starts with
  a blank or with a value, both of them ASCII, and holds no NUL, so the octets in
  front tell.  Then the octets are loaded as the text is, and every decoder that
  loads its payload makes of them what it makes of the text.

  Main result:
    * `load_spell` — a text that is loaded is loaded from its octets in each encoding,
      with a byte order mark or without.
-/
import EditorWire.Dispatch.Registry
import EditorWire.DocumentUri.Wire
import EditorWire.Holder.History
import EditorWire.Proofs.Json.Ending
import EditorWire.Proofs.Json.Extension
import EditorWire.Proofs.Text.Encoding

namespace EditorWire

open Encoding (spell)

namespace Json

variable {d : Dialect} {t r : Text} {v : Json}

/-! ## §1. What a text that is read starts with. -/

/-- The text starts with a code point of ASCII. -/
def StartsAscii (t : Text) : Prop := ∃ c r, t = c :: r ∧ c < 0x80

theorem startsAscii_of_readAtom (h : readAtom d t = .ok (v, r)) : StartsAscii t := by
  rcases readAtom_eq_ok_iff.1 h with hnamed | ⟨-, n, hnumeral, -⟩
  · obtain ⟨name, hentry, rfl⟩ := readNamed?_eq_some_iff.1 hnamed
    have hnames : ∀ entry ∈ namedValues, ∃ c s, entry.1 = c :: s ∧ c < 0x80 := by
      simp only [namedValues, List.forall_mem_cons]
      refine ⟨?_, ?_, ?_, ?_, ?_, ?_, List.forall_mem_nil _⟩ <;>
        exact ⟨_, _, rfl, by decide⟩
    obtain ⟨c, s, hname, hc⟩ := hnames _ hentry
    refine ⟨c, s ++ r, ?_, hc⟩
    show name ++ r = _
    rw [show name = c :: s from hname, List.cons_append]
  · obtain ⟨c, s, rfl, hc⟩ := exists_digit_of_readNumeral? hnumeral
    have hbetween := Decimal.isDigit_between hc
    cases n.negative with
    | true => exact ⟨Ascii.hyphen, c :: s, rfl, by decide⟩
    | false => exact ⟨c, s, rfl, by omega⟩

theorem startsAscii_of_readValue {n : Nat} (h : readValue d n t = .ok (v, r)) :
    StartsAscii t := by
  rcases readValue_eq_ok_iff.1 h with ⟨s, _, rfl, -⟩ | ⟨s, _, rfl, -⟩ | ⟨s, _, rfl, -⟩ | hatom
  · exact ⟨_, s, rfl, by decide⟩
  · exact ⟨_, s, rfl, by decide⟩
  · exact ⟨_, s, rfl, by decide⟩
  · exact startsAscii_of_readAtom hatom

/-- Blanks in front are ASCII too. -/
theorem startsAscii_of_skipBlank (h : StartsAscii (skipBlank t)) : StartsAscii t := by
  obtain ⟨c, r, heq, hc⟩ := h
  cases t with
  | nil => cases heq
  | cons x s =>
    by_cases hx : isBlank x = true
    · refine ⟨x, s, rfl, ?_⟩
      simp only [isBlank, Bool.or_eq_true, beq_iff_eq] at hx
      omega
    · rw [Bool.not_eq_true] at hx
      rw [skipBlank_cons s hx] at heq
      obtain ⟨rfl, -⟩ := List.cons.inj heq
      exact ⟨x, s, rfl, hc⟩

theorem startsAscii_of_read (h : read d t = .ok v) : StartsAscii t := by
  obtain ⟨r, hread, -⟩ := read_eq_ok_iff.1 h
  exact startsAscii_of_skipBlank (startsAscii_of_readValue hread)

theorem ne_zero_of_isTextual {c : Nat} (h : isTextual c = true) : c ≠ 0 := by
  intro hc
  rw [hc] at h
  exact absurd h (by decide)

/-! ## §2. Loading. -/

/-- A text that is read is detected from its octets. -/
theorem decodeDetected_of_read (ht : Text.IsScalar t) (h : read d t = .ok v) (e : Encoding)
    (marked : Bool) : Encoding.decodeDetected (spell e marked t) = .ok t := by
  have htextual := isTextual_of_read h
  obtain ⟨c, r, rfl, hc⟩ := startsAscii_of_read h
  obtain ⟨hfirst, hrest⟩ := List.forall_mem_cons.1 htextual
  refine Encoding.decodeDetected_spell (Nat.pos_of_ne_zero (ne_zero_of_isTextual hfirst)) hc ?_
    ht e marked
  intro hzero
  exact ne_zero_of_isTextual (hrest 0 (List.mem_of_mem_head? hzero)) rfl

theorem load_octets_eq_ok (ht : Text.IsScalar t) (h : load (.text t) = .ok v) (e : Encoding)
    (marked : Bool) : load (.octets (spell e marked t)) = .ok v := by
  have hread := (load_text_eq_ok_iff.1 h).2
  unfold load
  rw [Result.bind_eq_ok_iff]
  exact ⟨t, Result.mapError_eq_ok_iff.2 (Result.mapError_eq_ok_iff.2
    (decodeDetected_of_read ht hread e marked)), Result.mapError_eq_ok_iff.2 hread⟩

end Json

/-! ## §3. Decoders. -/

/-- Whatever loads a payload makes the same of both. -/
structure DecodedAlike (p q : Payload) : Prop where
  load : Json.load p = Json.load q
  registry : ∀ (r : Registry) (method : Text), r.decode method p = r.decode method q
  holder : Holder.ofJson p = Holder.ofJson q
  holders : Holder.listOfJson p = Holder.listOfJson q
  create : ∀ (hs : Holders) (slot : Text),
    hs.step (.createFromJson slot p) = hs.step (.createFromJson slot q)
  unmarshal : ∀ (hs : Holders) (slot : Text),
    hs.step (.unmarshal slot p) = hs.step (.unmarshal slot q)
  document : DocumentUri.ofJson p = DocumentUri.ofJson q

/-- A decoder sees nothing of a payload but what is loaded. -/
theorem decodedAlike_of_load {p q : Payload} (h : Json.load p = Json.load q) :
    DecodedAlike p q := by
  have hload : Holder.load p = Holder.load q := by
    unfold Holder.load
    rw [h]
  have hholder : Holder.ofJson p = Holder.ofJson q := by
    unfold Holder.ofJson
    rw [hload]
  refine ⟨h, ?_, hholder, ?_, ?_, ?_, ?_⟩
  · intro r method
    unfold Registry.decode
    rw [hload]
  · unfold Holder.listOfJson
    rw [hload]
  · intro hs slot
    simp only [Holders.step, Holders.perform, hholder]
  · intro hs slot
    simp only [Holders.step, Holders.perform, Holder.unmarshal, hload]
  · unfold DocumentUri.ofJson
    rw [h]

/-- **The encoding of a payload does not matter**: the octets of a text that is loaded are loaded
as the text is, in each encoding, with a byte order mark or without, and so is made of them by
every decoder what is made of the text. -/
theorem load_spell {t : Text} {v : Json} (ht : Text.IsScalar t)
    (h : Json.load (.text t) = .ok v) (e : Encoding) (marked : Bool) :
    Json.load (.octets (spell e marked t)) = .ok v
      ∧ DecodedAlike (.octets (spell e marked t)) (.text t) := by
  have hload := Json.load_octets_eq_ok ht h e marked
  exact ⟨hload, decodedAlike_of_load (hload.trans h.symm)⟩

/-- An accented letter behind the quote: the second code point is not ASCII. -/
theorem load_spell_accented :
    spell (.utf16 .little) true "\"é\"" = [0xFF, 0xFE, 0x22, 0x00, 0xE9, 0x00, 0x22, 0x00]
      ∧ Json.load (.octets (spell (.utf16 .little) true "\"é\"")) = .ok (.string "é") := by
  have hload : Json.load (.text "\"é\"") = .ok (.string "é") := by rfl
  exact ⟨by decide, (load_spell (by decide) hload (.utf16 .little) true).1⟩

end EditorWire
