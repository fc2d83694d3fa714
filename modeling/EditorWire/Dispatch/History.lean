/-
  EditorWire.Dispatch.History — the registries of a program, and what happens to them.

  A program starts with one registry and makes more of them, empty ones and such
  as it started with.  A registry is known by its place in the order in which they
  were made.  Decoders are registered with one registry at a time, and there is no
  way to register with one that was not made.
-/
import EditorWire.Dispatch.Registry

namespace EditorWire

/-- The registries there are, in the order in which they were made. -/
abbrev Registries := List Registry

namespace Registries

/-- What can be done. -/
inductive Operation where
  /-- Make a registry without decoders. -/
  | createEmpty
  /-- Make a registry like the one every program starts with. -/
  | createDefault
  /-- Register a decoder with the registry of the place. -/
  | register (place : Nat) (method : Text) (decoder : Decoder)

/-- What a program starts with. -/
def start : Registries := [Registry.default]

/-- The registries after an operation, if it can be done. -/
def step? (rs : Registries) : Operation → Option Registries
  | .createEmpty => some (rs ++ [Registry.empty])
  | .createDefault => some (rs ++ [Registry.default])
  | .register place method decoder =>
      (rs[place]?).map fun r => rs.set place (r.register method decoder)

/-- The registries after operations made one after another. -/
def run? (rs : Registries) (operations : List Operation) : Option Registries :=
  operations.foldlM step? rs

end Registries

end EditorWire
