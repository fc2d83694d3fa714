/-
  EditorWire.Json.Value — JSON values.

  Objects keep their members in order of first appearance; integers are exact at
  any size and apart from fractions; strings may hold lone surrogates.

      Json.depth       how many arrays and objects lie inside one another
      Json.finiteOnly  every number that is not finite replaced by null
      Json.sameValue   equality in which 1, 1.0 and true are one value and the order
                       of members does not count
-/
import EditorWire.Bindings
import EditorWire.Number.Binary64
import EditorWire.Text.CodePoint

namespace EditorWire

/-- A JSON value. -/
inductive Json where
  | null
  | bool (b : Bool)
  /-- A number written without fraction and exponent. -/
  | int (i : Int)
  /-- Any other number. -/
  | float (x : Binary64)
  | string (t : Text)
  | array (items : List Json)
  /-- The members in order of first appearance. -/
  | object (members : List (Text × Json))
  deriving Repr

/-- The members of an object. -/
abbrev Members := List (Text × Json)

/-! ## §1. What kind of value it is. -/

namespace Json

/-- What messages call the kind of a value. -/
def typeName : Json → Text
  | .null => "NoneType"
  | .bool _ => "bool"
  | .int _ => "int"
  | .float _ => "float"
  | .string _ => "str"
  | .array _ => "list"
  | .object _ => "dict"

/-! ## §2. Nesting. -/

mutual

/-- How many arrays and objects lie inside one another at most. -/
def depth : Json → Nat
  | .array items => depthItems items + 1
  | .object members => depthMembers members + 1
  | _ => 0

/-- The depth of the deepest item. -/
def depthItems : List Json → Nat
  | [] => 0
  | v :: rest => max (depth v) (depthItems rest)

/-- The depth of the deepest member. -/
def depthMembers : List (Text × Json) → Nat
  | [] => 0
  | (_, v) :: rest => max (depth v) (depthMembers rest)

end

/-! ## §3. Numbers that are not finite. -/

mutual

/-- Every number that is not finite replaced by null. -/
def finiteOnly : Json → Json
  | .float x => if x.isFinite then .float x else .null
  | .array items => .array (finiteOnlyItems items)
  | .object members => .object (finiteOnlyMembers members)
  | v => v

/-- The replacement in every item. -/
def finiteOnlyItems : List Json → List Json
  | [] => []
  | v :: rest => finiteOnly v :: finiteOnlyItems rest

/-- The replacement in every member. -/
def finiteOnlyMembers : List (Text × Json) → List (Text × Json)
  | [] => []
  | (k, v) :: rest => (k, finiteOnly v) :: finiteOnlyMembers rest

end

/-! ## §4. Equality of values. -/

/-- The integer a number or truth value is, if it is written as one. -/
def integer? : Json → Option Int
  | .int i => some i
  | .bool b => some (if b then 1 else 0)
  | _ => none

/-- Equality of numbers of any form, a truth value counting as 0 or 1. -/
def sameNumber (a b : Json) : Bool :=
  match a.integer?, b.integer? with
  | some i, some j => i == j
  | some i, none => match b with
      | .float y => y.equalsInt i
      | _ => false
  | none, some j => match a with
      | .float x => x.equalsInt j
      | _ => false
  | none, none => match a, b with
      | .float x, .float y => x.sameValue y
      | _, _ => false

mutual

/-- Equality of values. -/
def sameValue : Json → Json → Bool
  | .null, .null => true
  | .string s, .string t => s == t
  | .array items, .array others => sameItems items others
  | .object members, .object others =>
      members.length == others.length && sameMembers members others
  | a, b => sameNumber a b

/-- Equality item by item. -/
def sameItems : List Json → List Json → Bool
  | [], [] => true
  | v :: rest, w :: others => sameValue v w && sameItems rest others
  | _, _ => false

/-- Every member has an equal one of the same name. -/
def sameMembers : List (Text × Json) → List (Text × Json) → Bool
  | [], _ => true
  | (k, v) :: rest, others =>
      (match Bindings.get? others k with
        | some w => sameValue v w
        | none => false) && sameMembers rest others

end

end Json

end EditorWire
