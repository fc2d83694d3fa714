/-
  EditorWire.Proofs.CommandLine.Batches — what is printed of a batch.

  A batch converts its items one by one.  Where it is prepared for every failure
  that may come, no item hides what became of another:

      output    the results, each a line of its own, in order
      errors    the log, and a report of each failure, in order
      exit      1 if there is a failure, 0 otherwise

  A failure it is not prepared for ends the batch, and nothing is reported.

  Main results:
    * `batch_eq`, `batch_of_escape` — what a batch comes to, in these two cases.
    * `print_batch` — the first of them as it is printed.
-/
import EditorWire.CommandLine.Run
import EditorWire.Proofs.CommandLine.Streams
import EditorWire.Proofs.Text.Utf8

namespace EditorWire

variable {α β : Type}

namespace Outcome

/-- The outcome of a result, whatever the failure. -/
def ofResult : Except Failure α → Outcome α
  | .ok a => .ok a
  | .error failure => .err failure

theorem capture_eq_ok {families : List Failure.Family} {result : Except Failure α}
    (h : ∀ failure, result = .error failure → families.any failure.isIn = true) :
    capture families result = .ok (ofResult result) := by
  cases result with
  | ok a => rfl
  | error failure => exact if_pos (h failure rfl)

theorem capture_eq_error {families : List Failure.Family} {failure : Failure}
    (h : families.any failure.isIn = false) :
    capture (α := α) families (.error failure) = .error failure :=
  if_neg (by simp [h])

end Outcome

namespace CommandLine

/-! ## §1. Results and failures, each in order. -/

/-- The failure of a result, if it is one. -/
def failure? : Except Failure α → Option Failure
  | .ok _ => none
  | .error failure => some failure

/-- What the items that can be converted come to. -/
def converted (convert : Text → Except Failure α) (items : List Text) : List α :=
  items.filterMap fun item => (convert item).toOption

/-- Why the others cannot. -/
def failures (convert : Text → Except Failure α) (items : List Text) : List Failure :=
  items.filterMap fun item => failure? (convert item)

variable {convert : Text → Except Failure α} {item : Text} {items : List Text}

theorem converted_cons_of_ok {a : α} (h : convert item = .ok a) :
    converted convert (item :: items) = a :: converted convert items :=
  List.filterMap_cons_some (by rw [h]; rfl)

theorem converted_cons_of_error {failure : Failure} (h : convert item = .error failure) :
    converted convert (item :: items) = converted convert items :=
  List.filterMap_cons_none (by rw [h]; rfl)

theorem failures_cons_of_ok {a : α} (h : convert item = .ok a) :
    failures convert (item :: items) = failures convert items :=
  List.filterMap_cons_none (by rw [h]; rfl)

theorem failures_cons_of_error {failure : Failure} (h : convert item = .error failure) :
    failures convert (item :: items) = failure :: failures convert items :=
  List.filterMap_cons_some (by rw [h]; rfl)

/-- Results that are shown in another form are the same results. -/
theorem converted_map (f : α → β) (convert : Text → Except Failure α) (items : List Text) :
    converted (fun item => (convert item).map f) items = (converted convert items).map f := by
  unfold converted
  rw [List.map_filterMap]
  refine List.filterMap_congr fun item _ => ?_
  show ((convert item).map f).toOption = (convert item).toOption.map f
  cases convert item <;> rfl

/-- Failures do not depend on the form of the results. -/
theorem failures_map (f : α → β) (convert : Text → Except Failure α) (items : List Text) :
    failures (fun item => (convert item).map f) items = failures convert items := by
  refine List.filterMap_congr fun item _ => ?_
  show failure? ((convert item).map f) = failure? (convert item)
  cases convert item <;> rfl

theorem failures_eq_nil_iff (convert : Text → Except Failure α) (items : List Text) :
    failures convert items = [] ↔ ∀ item ∈ items, ∃ a, convert item = .ok a := by
  unfold failures
  rw [List.filterMap_eq_nil_iff]
  refine forall₂_congr fun item _ => ?_
  cases convert item <;> simp [failure?]

/-- Each result is that of the item at its place among those that are converted. -/
theorem forall₂_converted {p : Text → Prop} [DecidablePred p]
    (h : ∀ item, p item ↔ ∃ a, convert item = .ok a) (items : List Text) :
    List.Forall₂ (fun item a => convert item = .ok a)
      (items.filter p) (converted convert items) := by
  induction items with
  | nil => exact .nil
  | cons item items ih =>
    cases hconvert : convert item with
    | ok a =>
      rw [converted_cons_of_ok hconvert, List.filter_cons_of_pos (by simpa [h] using ⟨a, hconvert⟩)]
      exact .cons hconvert ih
    | error failure =>
      rw [converted_cons_of_error hconvert, List.filter_cons_of_neg (by simp [h, hconvert])]
      exact ih

/-- Each failure is that of the item at its place among those that are not. -/
theorem forall₂_failures {p : Text → Prop} [DecidablePred p]
    (h : ∀ item, p item ↔ ∃ a, convert item = .ok a) (items : List Text) :
    List.Forall₂ (fun item failure => convert item = .error failure)
      (items.filter fun item => ¬ p item) (failures convert items) := by
  induction items with
  | nil => exact .nil
  | cons item items ih =>
    cases hconvert : convert item with
    | ok a =>
      rw [failures_cons_of_ok hconvert, List.filter_cons_of_neg (by simp [h, hconvert])]
      exact ih
    | error failure =>
      rw [failures_cons_of_error hconvert, List.filter_cons_of_pos (by simp [h, hconvert])]
      exact .cons hconvert ih

/-! ## §2. Batches. -/

/-- The line of a result. -/
def resultLine (result : Except Failure Text) : Line := outcomeLine (Outcome.ofResult result)

theorem mapM_capture {families : List Failure.Family}
    (h : ∀ item ∈ items, ∀ failure, convert item = .error failure →
      families.any failure.isIn = true) :
    (items.mapM fun item => Outcome.capture families (convert item))
      = .ok (items.map fun item => Outcome.ofResult (convert item)) := by
  induction items with
  | nil => rfl
  | cons item items ih =>
    obtain ⟨hitem, hitems⟩ := List.forall_mem_cons.1 h
    rw [List.mapM_cons, Outcome.capture_eq_ok hitem, ih hitems]
    rfl

/-- An outcome is a failure exactly if there is a failure to be reported. -/
theorem any_isErr_ofResult (convert : Text → Except Failure α) (items : List Text) :
    (items.map fun item => Outcome.ofResult (convert item)).any Outcome.isErr
      = !(failures convert items).isEmpty := by
  induction items with
  | nil => rfl
  | cons item items ih =>
    rw [List.map_cons, List.any_cons, ih]
    cases h : convert item with
    | ok a =>
      rw [failures_cons_of_ok h]
      rfl
    | error failure =>
      rw [failures_cons_of_error h]
      rfl

/-- The exit code of a batch with these failures. -/
def exitCode (failures : List Failure) : Nat := if failures = [] then 0 else 1

/-- **A batch that is prepared for its failures comes to one line for each item.** -/
theorem batch_eq {convert : Text → Except Failure Text} {families : List Failure.Family}
    (h : ∀ item ∈ items, ∀ failure, convert item = .error failure →
      families.any failure.isIn = true) :
    batch families convert items
      = ⟨items.map fun item => resultLine (convert item), .ok (exitCode (failures convert items))⟩ := by
  unfold batch
  rw [mapM_capture h]
  simp only [any_isErr_ofResult, List.map_map, exitCode]
  congr 2
  cases failures convert items <;> rfl

/-- **A failure that a batch is not prepared for hides every item.** -/
theorem batch_of_escape {convert : Text → Except Failure Text} {families : List Failure.Family}
    {before after : List Text} {failure : Failure}
    (hbefore : ∀ b ∈ before, ∀ failure, convert b = .error failure →
      families.any failure.isIn = true)
    (hitem : convert item = .error failure) (hfailure : families.any failure.isIn = false) :
    batch families convert (before ++ item :: after) = ⟨[], .error failure⟩ := by
  unfold batch
  rw [List.mapM_append, mapM_capture hbefore, List.mapM_cons, hitem,
    Outcome.capture_eq_error hfailure]
  rfl

/-! ## §3. Batches in print. -/

/-- A batch is prepared for the item: its failure is in a family, with a message that no stream
changes, and its result has octets. -/
structure Prepared (families : List Failure.Family) (convert : Text → Except Failure Text)
    (item : Text) : Prop where
  family : ∀ failure, convert item = .error failure → families.any failure.isIn = true
  tame : ∀ failure, convert item = .error failure → IsTame failure.message
  scalar : ∀ t, convert item = .ok t → Text.IsScalar t

variable {convert : Text → Except Failure Text} {families : List Failure.Family}

theorem print_results (color : Bool) (h : ∀ item ∈ items, Prepared families convert item) :
    print color (items.map fun item => resultLine (convert item))
      = ⟨(converted convert items).flatMap fun t => ended (shown color t),
          (failures convert items).flatMap fun failure => reportText color failure.message,
          none⟩ := by
  induction items with
  | nil => rfl
  | cons item items ih =>
    obtain ⟨hitem, hitems⟩ := List.forall_mem_cons.1 h
    rw [List.map_cons, print, ih hitems]
    cases hconvert : convert item with
    | ok t =>
      have hscalar : Text.IsScalar (ended (shown color t)) :=
        List.forall_mem_append.2 ⟨isScalar_shown color (hitem.scalar t hconvert), by decide⟩
      rw [converted_cons_of_ok hconvert, failures_cons_of_ok hconvert, List.flatMap_cons]
      simp only [resultLine, Outcome.ofResult, outcomeLine, text_result, Line.isError,
        Utf8.firstSurrogates?_eq_none_iff.2 hscalar]
      rfl
    | error failure =>
      rw [converted_cons_of_error hconvert, failures_cons_of_error hconvert, List.flatMap_cons,
        ← text_error color (hitem.tame failure hconvert)]
      rfl

theorem print_logs (color : Bool) {logs : List Text} (h : ∀ log ∈ logs, IsTame log)
    (lines : List Line) :
    print color (logs.map Line.log ++ lines)
      = { print color lines with
            errors := logs.flatMap ended ++ (print color lines).errors } := by
  induction logs with
  | nil => rfl
  | cons log logs ih =>
    obtain ⟨hlog, hlogs⟩ := List.forall_mem_cons.1 h
    have htext : showSurrogates ((Line.log log).text color) = ended log := by
      have hline : (Line.log log).text color = ended log := by cases color <;> rfl
      have hshown : ∀ c ∈ ended log, ¬ IsSurrogate c :=
        List.forall_mem_append.2 ⟨fun c hc => (hlog c hc).2.2, by decide⟩
      rw [hline, showSurrogates_eq_self hshown]
    rw [List.map_cons, List.cons_append, print, ih hlogs, htext, List.flatMap_cons,
      List.append_assoc]
    rfl

/-- What is printed of the log. -/
def logged (verbose : Bool) (logs : List Text) : Text :=
  if verbose then logs.flatMap ended else []

/-- Only the log is left out of what is printed. -/
theorem print_shown (color verbose : Bool) {logs : List Text} (hlogs : ∀ log ∈ logs, IsTame log)
    (lines : List Line) (hlines : ∀ line ∈ lines, line.isLog = false) :
    print color ((logs.map Line.log ++ lines).filter fun line => verbose || !line.isLog)
      = { print color lines with
            errors := logged verbose logs ++ (print color lines).errors } := by
  cases verbose with
  | true =>
    show print color ((logs.map Line.log ++ lines).filter fun _ => true) = _
    rw [List.filter_true, print_logs color hlogs]
    rfl
  | false =>
    have hnone : (logs.map Line.log).filter (fun line => false || !line.isLog) = [] := by
      refine List.filter_eq_nil_iff.2 fun line hline => ?_
      obtain ⟨log, -, rfl⟩ := List.mem_map.1 hline
      simp [Line.isLog]
    have hall : lines.filter (fun line => false || !line.isLog) = lines :=
      List.filter_eq_self.2 fun line hline => by simp [hlines line hline]
    rw [List.filter_append, hnone, hall]
    rfl

theorem isLog_resultLine (result : Except Failure Text) : (resultLine result).isLog = false := by
  cases result <;> rfl

/-- **A batch that is prepared for its items reports each of them.** -/
theorem print_batch (color verbose : Bool) {logs : List Text} (hlogs : ∀ log ∈ logs, IsTame log)
    (h : ∀ item ∈ items, Prepared families convert item) :
    Report.print color verbose
        ⟨logs.map Line.log ++ (batch families convert items).lines,
          (batch families convert items).ending⟩
      = ⟨exitCode (failures convert items),
          (converted convert items).flatMap fun t => ended (shown color t),
          logged verbose logs
            ++ (failures convert items).flatMap fun failure => reportText color failure.message,
          none⟩ := by
  have hlines : ∀ line ∈ items.map fun item => resultLine (convert item), line.isLog = false := by
    intro line hline
    obtain ⟨item, -, rfl⟩ := List.mem_map.1 hline
    exact isLog_resultLine _
  rw [batch_eq fun item hitem => (h item hitem).family]
  unfold Report.print
  simp only [print_shown color verbose hlogs _ hlines, print_results color h]

/-- The same for results that are printed in another form. -/
theorem print_batch_map (color verbose : Bool) (f : α → Text) {convert : Text → Except Failure α}
    {logs : List Text} (hlogs : ∀ log ∈ logs, IsTame log)
    (h : ∀ item ∈ items, Prepared families (fun item => (convert item).map f) item) :
    Report.print color verbose
        ⟨logs.map Line.log ++ (batch families (fun item => (convert item).map f) items).lines,
          (batch families (fun item => (convert item).map f) items).ending⟩
      = ⟨exitCode (failures convert items),
          (converted convert items).flatMap fun a => ended (shown color (f a)),
          logged verbose logs
            ++ (failures convert items).flatMap fun failure => reportText color failure.message,
          none⟩ := by
  rw [print_batch color verbose hlogs h, converted_map, failures_map, List.flatMap_map]

/-- Of a batch that is cut short only the log is printed. -/
theorem print_escape (color verbose : Bool) {logs : List Text} (hlogs : ∀ log ∈ logs, IsTame log)
    (failure : Failure) :
    Report.print color verbose ⟨logs.map Line.log, .error failure⟩
      = ⟨1, [], logged verbose logs, some failure⟩ := by
  have hprint := print_shown color verbose hlogs [] (List.forall_mem_nil _)
  rw [List.append_nil] at hprint
  unfold Report.print
  simp only [hprint, print, List.append_nil]

end CommandLine

end EditorWire
