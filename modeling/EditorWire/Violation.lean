/-
  EditorWire.Violation — what a decoded value breaks, and where.

  A value of the wrong shape is reported as one violation per broken condition,
  each with the path of names and indexes that leads to it, what was expected
  there, and the sentence that says so.
-/
import EditorWire.Text.CodePoint

namespace EditorWire

/-- A step into a value. -/
inductive Step where
  /-- To the member of a name. -/
  | name (t : Text)
  /-- To the item at an index, counted from zero. -/
  | index (i : Nat)
  deriving Repr, DecidableEq

/-- What stands nowhere near where it should. -/
inductive Expectation where
  /-- A required field. -/
  | present
  /-- A string. -/
  | string
  /-- An array. -/
  | list
  /-- An object inside a decoded value. -/
  | dictionary
  /-- A truth value. -/
  | boolean
  /-- The object of a command. -/
  | command
  /-- An object as a whole payload. -/
  | object
  /-- The object of a record as a whole payload. -/
  | record
  /-- A JSON text. -/
  | json
  /-- A text without surrogates. -/
  | unicode
  /-- A document URI made before. -/
  | uriInstance
  /-- A string that names a document; `reason` says why it does not. -/
  | uri (reason : Text)
  deriving Repr, DecidableEq

namespace Expectation

/-- The short name of the violation. -/
def code : Expectation → Text
  | .present => "missing"
  | .string => "string_type"
  | .list => "list_type"
  | .dictionary => "dict_type"
  | .boolean => "bool_type"
  | .command => "model_type"
  | .object => "dict_type"
  | .record => "model_type"
  | .json => "json_invalid"
  | .unicode => "string_unicode"
  | .uriInstance => "is_instance_of"
  | .uri _ => "value_error"

/-- The sentence of the violation; a text that is no JSON has none. -/
def message? : Expectation → Option Text
  | .present => some "Field required"
  | .string => some "Input should be a valid string"
  | .list => some "Input should be a valid list"
  | .dictionary => some "Input should be a valid dictionary"
  | .boolean => some "Input should be a valid boolean"
  | .command => some "Input should be a valid dictionary or instance of Command"
  | .object => some "Input should be an object"
  | .record => some "Input should be an object"
  | .json => none
  | .unicode =>
      some "Input should be a valid string, unable to parse raw data as a unicode string"
  | .uriInstance => some "Input should be an instance of DocumentURI"
  | .uri reason => some ("Value error, " ++ reason)

end Expectation

/-- A broken condition. -/
structure Violation where
  /-- How to get there from the whole value. -/
  path : List Step
  expected : Expectation
  deriving Repr, DecidableEq

/-- The violation seen from one level further out. -/
def Violation.under (step : Step) (v : Violation) : Violation := { v with path := step :: v.path }

/-! ## Checks that collect every violation. -/

/-- A checked value, or everything that is wrong with it. -/
inductive Checked (α : Type) where
  | valid (a : α)
  | invalid (violations : List Violation)
  deriving Repr

namespace Checked

variable {α β : Type}

/-- One violation at this very place. -/
def expected (e : Expectation) : Checked α := .invalid [⟨[], e⟩]

/-- What is wrong, in order; nothing if the value is valid. -/
def violations : Checked α → List Violation
  | .valid _ => []
  | .invalid vs => vs

/-- The value under a function. -/
def map (f : α → β) : Checked α → Checked β
  | .valid a => .valid (f a)
  | .invalid vs => .invalid vs

/-- A function and its argument, checked one after the other; the violations of both are kept. -/
def apply (f : Checked (α → β)) (a : Checked α) : Checked β :=
  match f, a with
  | .valid f, .valid a => .valid (f a)
  | .valid _, .invalid vs => .invalid vs
  | .invalid vs, a => .invalid (vs ++ a.violations)

/-- The violations seen from one level further out. -/
def under (step : Step) : Checked α → Checked α
  | .valid a => .valid a
  | .invalid vs => .invalid (vs.map (Violation.under step))

/-- The value, or what is made of the violations. -/
def toExcept {ε : Type} (fault : List Violation → ε) : Checked α → Except ε α
  | .valid a => .ok a
  | .invalid vs => .error (fault vs)

/-- Nothing that is wrong with either part gets lost. -/
theorem violations_apply (f : Checked (α → β)) (a : Checked α) :
    (apply f a).violations = f.violations ++ a.violations := by
  cases f <;> cases a <;> simp [apply, violations]

theorem violations_under (step : Step) (a : Checked α) :
    (under step a).violations = a.violations.map (Violation.under step) := by
  cases a <;> simp [under, violations]

end Checked

end EditorWire
