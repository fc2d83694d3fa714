/-
  EditorWire.Proofs.CodeAction.Batch — a list of items as a text made of their texts.

  The texts of items, with commas between them and brackets around them, are the
  text of their list, in both directions:

      ofJson e₁ = h₁, …, ofJson eₙ = hₙ     →   listOfJson "[e₁,…,eₙ]" = [h₁, …, hₙ]
      encode h₁ = e₁, …, encode hₙ = eₙ     →   encodeList [h₁, …, hₙ] = "[e₁,…,eₙ]"

  If some of the texts are not decoded, the fault of the list is that of the first
  of these, with its place.

  Main result:
    * `listCodec_agrees` — lists are decoded and written as their items are.
-/
import EditorWire.Proofs.CodeAction.Lists
import EditorWire.Proofs.Json.Joined

namespace EditorWire.Holder

open Json (arrayText textNesting)

/-- The text is JSON, nested no deeper than an item may be. -/
structure IsElementText (e : Text) : Prop where
  loads : ∃ v, Json.load (.text e) = .ok v
  shallow : textNesting e ≤ 240

theorem IsElementText.nesting_lt {e : Text} (h : IsElementText e) :
    textNesting e < Json.defaultLevels :=
  Nat.lt_of_le_of_lt h.shallow (by decide)

/-! ## §1. Decoding. -/

/-- Texts that are decoded to holders are loaded as values that are decoded to items. -/
theorem exists_items_of_ofJson {texts : List Text} {holders : List Holder}
    (h : List.Forall₂ (fun e holder => ofJson (.text e) = .ok holder) texts holders) :
    ∃ values items, List.Forall₂ (fun e v => Json.load (.text e) = .ok v) texts values
      ∧ List.Forall₂ (fun v item => Item.decode v = .ok item) values items
      ∧ holders = items.map of := by
  induction h with
  | nil => exact ⟨[], [], .nil, .nil, rfl⟩
  | cons hfirst _ ih =>
    obtain ⟨v, item, hload, hitem, rfl⟩ := ofJson_eq_ok_iff.1 hfirst
    obtain ⟨values, items, hvalues, hitems, rfl⟩ := ih
    exact ⟨v :: values, item :: items, .cons hload hvalues, .cons hitem hitems, rfl⟩

/-- The text of an array is decoded to what the texts in it are decoded to. -/
theorem listOfJson_arrayText {texts : List Text} {holders : List Holder}
    (hnesting : ∀ e ∈ texts, textNesting e < Json.defaultLevels)
    (h : List.Forall₂ (fun e holder => ofJson (.text e) = .ok holder) texts holders) :
    listOfJson (.text (arrayText texts)) = .ok holders := by
  obtain ⟨values, items, hvalues, hitems, rfl⟩ := exists_items_of_ofJson h
  exact listOfJson_eq_ok_iff.2
    ⟨values, items, Json.load_arrayText hvalues (by decide) hnesting, hitems, rfl⟩

/-- Where the texts before one are decoded, the array is loaded with values before that of the
text, as many as there are texts, that are decoded too. -/
theorem exists_values_of_before {before after : List Text} {e : Text}
    (helement : ∀ e' ∈ before ++ e :: after, IsElementText e')
    (hbefore : ∀ e' ∈ before, ∃ holder, ofJson (.text e') = .ok holder) :
    ∃ us v ws, Json.load (.text (arrayText (before ++ e :: after))) = .ok (.array (us ++ v :: ws))
      ∧ Json.load (.text e) = .ok v ∧ us.length = before.length
      ∧ ∀ u ∈ us, ∃ item, Item.decode u = .ok item := by
  have hdecoded : ∀ e' ∈ before, ∃ v, Json.load (.text e') = .ok v
      ∧ ∃ item, Item.decode v = .ok item := by
    intro e' he'
    obtain ⟨holder, hholder⟩ := hbefore e' he'
    obtain ⟨v, item, hload, hitem, -⟩ := ofJson_eq_ok_iff.1 hholder
    exact ⟨v, hload, item, hitem⟩
  have hafter : ∀ e' ∈ after, ∃ v, Json.load (.text e') = .ok v := fun e' he' =>
    (helement e' (List.mem_append_right _ (List.mem_cons_of_mem e he'))).loads
  obtain ⟨us, hus⟩ := Result.exists_forall₂ hdecoded
  obtain ⟨v, hv⟩ := (helement e (List.mem_append_right _ List.mem_cons_self)).loads
  obtain ⟨ws, hws⟩ := Result.exists_forall₂ hafter
  refine ⟨us, v, ws, ?_, hv, hus.length_eq.symm, fun u hu => ?_⟩
  · exact Json.load_arrayText (List.rel_append (hus.imp fun _ _ h => h.1) (.cons hv hws))
      (by decide) fun e' he' => (helement e' he').nesting_lt
  · obtain ⟨e', -, h⟩ := Result.exists_left_of_forall₂ hus u hu
    exact h.2

/-- The fault of the first text that is not decoded is the fault of the array. -/
theorem listOfJson_arrayText_error {before after : List Text} {e : Text}
    (helement : ∀ e' ∈ before ++ e :: after, IsElementText e')
    (hbefore : ∀ e' ∈ before, ∃ holder, ofJson (.text e') = .ok holder)
    (he : ¬ ∃ holder, ofJson (.text e) = .ok holder) :
    ∃ fault, ofJson (.text e) = .error (.decode fault)
      ∧ listOfJson (.text (arrayText (before ++ e :: after)))
        = .error (.decode (.element before.length fault)) := by
  obtain ⟨us, v, ws, hload, hv, hlength, hus⟩ := exists_values_of_before helement hbefore
  -- the text is loaded, so it is its value that is not decoded
  rw [ofJson_of_load hv] at he ⊢
  cases hdecode : Item.decode v with
  | ok item =>
    rw [hdecode] at he
    exact absurd ⟨of item, rfl⟩ he
  | error fault =>
    refine ⟨fault, rfl, ?_⟩
    rw [listOfJson_of_load hload]
    show ((Item.decodeFrom 0 (us ++ v :: ws)).mapError Failure.decode).map _ = _
    rw [Item.decodeFrom_append_error hus hdecode, Nat.zero_add, hlength]
    rfl

/-! ## §2. Writing. -/

/-- The text of a list of holders is the array of their texts. -/
theorem encodeList_eq_arrayText {holders : List Holder} {texts : List Text}
    (h : List.Forall₂ (fun holder e => holder.encode = .ok e) holders texts) :
    encodeList holders = .ok (arrayText texts) := by
  obtain ⟨values, hvalues, rfl⟩ : ∃ values,
      List.Forall₂ (fun holder v => toWire holder = .ok v) holders values
        ∧ texts = values.map Json.print := by
    induction h with
    | nil => exact ⟨[], .nil, rfl⟩
    | cons hfirst _ ih =>
      obtain ⟨v, hv, rfl⟩ := Result.map_eq_ok_iff.1 hfirst
      obtain ⟨values, hvalues, rfl⟩ := ih
      exact ⟨v :: values, .cons hv hvalues, rfl⟩
  refine encodeList_eq_ok_iff.2 ⟨values, hvalues, ?_⟩
  rw [Json.print, Json.printItems_eq_map]
  rfl

/-! ## §3. The two codecs. -/

/-- **The codec of lists agrees with the codec of items.** -/
theorem listCodec_agrees :
    (∀ texts : List Text, (∀ e ∈ texts, IsElementText e) →
      (∀ holders, List.Forall₂ (fun e holder => ofJson (.text e) = .ok holder) texts holders →
        listOfJson (.text (arrayText texts)) = .ok holders)
      ∧ ((∃ e ∈ texts, ¬ ∃ holder, ofJson (.text e) = .ok holder) →
        ∃ before e after fault, texts = before ++ e :: after
          ∧ (∀ e' ∈ before, ∃ holder, ofJson (.text e') = .ok holder)
          ∧ ofJson (.text e) = .error (.decode fault)
          ∧ listOfJson (.text (arrayText texts))
            = .error (.decode (.element before.length fault))
          ∧ (Failure.decode (.element before.length fault)).message
            = "Invalid element at index " ++ Decimal.ofNat before.length ++ ": "
              ++ (Failure.decode fault).message))
    ∧ ∀ (holders : List Holder) (texts : List Text),
      List.Forall₂ (fun holder e => holder.encode = .ok e) holders texts →
        encodeList holders = .ok (arrayText texts) := by
  refine ⟨fun texts htexts => ⟨fun holders h => ?_, fun hfault => ?_⟩, fun holders texts h => ?_⟩
  · exact listOfJson_arrayText (fun e he => (htexts e he).nesting_lt) h
  · obtain ⟨before, e, after, rfl, hbefore, he⟩ := Result.exists_first hfault
    obtain ⟨fault, hfault, hlist⟩ := listOfJson_arrayText_error htexts hbefore he
    exact ⟨before, e, after, fault, rfl, hbefore, hfault, hlist, rfl⟩
  · exact encodeList_eq_arrayText h

/-- A command with nothing but its title and its identifier. -/
def plainItem : Item := .command ⟨"t", "c", .absent⟩

/-- The text of the command. -/
def plainText : Text := "\x7b\"title\":\"t\",\"command\":\"c\"\x7d"

/-- The text of an array, with blanks around it. -/
def paddedArray : Text := " [null]\n"

/-- Two commands side by side are a list of two, and an array between them is at fault in its
place. -/
theorem listCodec_agrees_plain :
    (IsElementText plainText ∧ IsElementText paddedArray)
      ∧ listOfJson (.text (arrayText [plainText, plainText]))
        = .ok [of plainItem, of plainItem]
      ∧ (∃ fault, ofJson (.text paddedArray) = .error (.decode fault)
        ∧ listOfJson (.text (arrayText [plainText, paddedArray, plainText]))
          = .error (.decode (.element 1 fault)))
      ∧ encodeList [of plainItem, of plainItem] = .ok (arrayText [plainText, plainText]) := by
  have hencode : (of plainItem).encode = .ok plainText := by rfl
  have hplain : Json.load (.text plainText) = .ok (.object plainItem.wireMembers) := by
    rw [show plainText = Json.print (.object plainItem.wireMembers) from rfl]
    exact (Json.load_print (by decide)).2 ⟨⟨by decide, by decide⟩, rfl⟩
  have harray : Json.load (.text paddedArray) = .ok (.array [.null]) := by cbv
  have hfirst : IsElementText plainText := ⟨⟨_, hplain⟩, by cbv⟩
  have hsecond : IsElementText paddedArray := ⟨⟨_, harray⟩, by cbv⟩
  have hok : ofJson (.text plainText) = .ok (of plainItem) := by
    rw [ofJson_of_load hplain]
    rfl
  have hrefused : ¬ ∃ holder, ofJson (.text paddedArray) = .ok holder := by
    rw [ofJson_of_load harray]
    rintro ⟨holder, h⟩
    cases h
  obtain ⟨hdecode, hwrite⟩ := listCodec_agrees
  have htwo := (hdecode [plainText, plainText] (by simp [hfirst])).1 _ (.cons hok (.cons hok .nil))
  obtain ⟨before, e, after, fault, htexts, hbefore, he, hlist, -⟩ :=
    (hdecode [plainText, paddedArray, plainText] (by simp [hfirst, hsecond])).2
      ⟨paddedArray, by simp, hrefused⟩
  -- the first text is decoded and the second is not
  obtain ⟨rfl, rfl⟩ : before = [plainText] ∧ e = paddedArray := by
    cases before with
    | nil =>
      rw [← (List.cons.inj htexts).1, hok] at he
      cases he
    | cons first before =>
      obtain ⟨rfl, htail⟩ := List.cons.inj htexts
      cases before with
      | nil => exact ⟨rfl, (List.cons.inj htail).1.symm⟩
      | cons second before =>
        rw [(List.cons.inj htail).1] at hrefused
        exact absurd (hbefore second (by simp)) hrefused
  exact ⟨⟨hfirst, hsecond⟩, htwo, ⟨fault, he, hlist⟩,
    hwrite _ _ (.cons hencode (.cons hencode .nil))⟩

end EditorWire.Holder
