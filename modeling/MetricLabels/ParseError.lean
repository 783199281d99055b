import MetricLabels.Token.Basic

/-!
# Parse errors

A text is no selector because a token stands where the grammar wants another,
and no template because a brace of a placeholder is left open.  Stray
characters, bad escapes and open strings are tokens, so they are unexpected
tokens here.
-/

namespace MetricLabels

/-- What a grammar requires at a place. -/
inductive Expected where
  /-- A token of one kind. -/
  | token (kind : Token.Kind)
  /-- Any operator. -/
  | operator
deriving Repr, DecidableEq

/-- What a message calls the requirement. -/
def Expected.description : Expected → String
  | token kind => kind.description
  | operator => "operator"

/-- Why a text was refused, and where. -/
inductive ParseError where
  /-- A token of kind `found` stands where `expected` is required. -/
  | unexpected (expected : Expected) (found : Token.Kind) (pos : Position)
  /-- The brace at `pos` opens a placeholder that does not close. -/
  | unbalancedBrace (pos : Position)
deriving Repr, DecidableEq

namespace ParseError

/-- The place of the error. -/
def pos : ParseError → Position
  | unexpected _ _ pos => pos
  | unbalancedBrace pos => pos

/-- The identifier of the kind of error. -/
def code : ParseError → String
  | unexpected .. => "selector-syntax-error"
  | unbalancedBrace _ => "template-unbalanced-brace"

/-- The message for a reader. -/
def message : ParseError → String
  | unexpected expected found pos =>
      "expected " ++ expected.description ++ " but got " ++ found.description ++ " at " ++
        pos.format
  | unbalancedBrace pos => "unbalanced brace at " ++ pos.format

end ParseError

end MetricLabels
