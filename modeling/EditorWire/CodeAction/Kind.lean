/-
  EditorWire.CodeAction.Kind — the kinds of code actions that have a name.

  A kind is any string; these are the ones the protocol gives a meaning to.  A
  dot separates a kind from what it refines.
-/
import EditorWire.Text.CodePoint

namespace EditorWire

/-- The kinds of code actions that have a name. -/
inductive CodeActionKind where
  /-- No kind in particular. -/
  | empty
  /-- Mends a problem. -/
  | quickFix
  /-- Changes the shape of the code. -/
  | refactor
  /-- Moves code into a new place of its own. -/
  | refactorExtract
  /-- Puts code in place of a name for it. -/
  | refactorInline
  /-- Moves code elsewhere. -/
  | refactorMove
  /-- Writes code in another way. -/
  | refactorRewrite
  /-- Applies to a whole file. -/
  | source
  /-- Tidies the imports of a file. -/
  | sourceOrganizeImports
  /-- Mends all that can be mended without asking. -/
  | sourceFixAll
  /-- Applies to a whole notebook. -/
  | notebook
  deriving Repr, DecidableEq

/-- The string of a kind. -/
def CodeActionKind.toText : CodeActionKind → Text
  | .empty => ""
  | .quickFix => "quickfix"
  | .refactor => "refactor"
  | .refactorExtract => "refactor.extract"
  | .refactorInline => "refactor.inline"
  | .refactorMove => "refactor.move"
  | .refactorRewrite => "refactor.rewrite"
  | .source => "source"
  | .sourceOrganizeImports => "source.organizeImports"
  | .sourceFixAll => "source.fixAll"
  | .notebook => "notebook"

end EditorWire
