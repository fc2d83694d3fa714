/-
  EditorWire.Outcome — operations whose failure is kept.

  In a batch one bad item must not hide what became of the others, so an
  operation is run with the families of failures the caller is prepared for:
  such a failure is kept as an outcome, every other one ends the batch.
-/
import EditorWire.Failure

namespace EditorWire

/-- What became of an operation. -/
inductive Outcome (α : Type) where
  /-- It succeeded. -/
  | ok (a : α)
  /-- It failed in a way the caller was prepared for. -/
  | err (failure : Failure)
  deriving Repr

namespace Outcome

variable {α : Type}

/-- The operation succeeded. -/
def isOk : Outcome α → Bool
  | .ok _ => true
  | .err _ => false

/-- The operation failed. -/
def isErr (o : Outcome α) : Bool := !o.isOk

/-- The result, or the failure that was kept. -/
def unwrap : Outcome α → Except Failure α
  | .ok a => .ok a
  | .err failure => .error failure

/-- The outcome of a result; a failure of none of the families is passed on. -/
def capture (families : List Failure.Family) (result : Except Failure α) :
    Except Failure (Outcome α) :=
  match result with
  | .ok a => .ok (.ok a)
  | .error failure =>
      if families.any failure.isIn then .ok (.err failure) else .error failure

end Outcome

end EditorWire
