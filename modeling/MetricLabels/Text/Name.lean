/-!
# Characters and names

The classes of characters that the grammars are built from.  All of them are
ASCII classes: letters and digits of other scripts belong to none.

A name is a letter or an underscore followed by letters, digits and
underscores.  `isBareName` tests that on the characters, and `NamePattern` is
the same shape as a pattern, one class for the first character and one for each
that follows.

Matching a pattern is left to an engine, which is given the pattern as it is
written (`PatternEngine`).  The one here knows the pattern of label names.
-/

namespace MetricLabels

/-- A blank separates tokens: a space, a tab or a line feed. -/
def isBlank (c : Char) : Bool := c == ' ' || c == '\t' || c == '\n'

/-- A word character: an ASCII letter or digit, or an underscore. -/
def isWord (c : Char) : Bool := c.isAlphanum || c == '_'

/-- Whether a text can stand on its own as a name, unquoted. -/
def isBareName (text : String) : Bool :=
  match text.toList with
  | [] => false
  | c :: cs => (c.isAlpha || c == '_') && (c :: cs).all isWord

/-! ## Patterns -/

/-- A class of characters, as the ranges that make it up. -/
abbrev CharClass := List (Char × Char)

/-- Whether a character lies in one of the ranges, ends included. -/
def CharClass.contains (k : CharClass) (c : Char) : Bool :=
  k.any fun (low, high) => low ≤ c && c ≤ high

/-- A pattern for names: a class for the first character and a class for each
character after it. -/
structure NamePattern where
  /-- The first character. -/
  first : CharClass
  /-- Every further character. -/
  rest : CharClass

namespace NamePattern

/-- Whether the whole text fits the pattern. -/
def accepts (p : NamePattern) (text : String) : Bool :=
  match text.toList with
  | [] => false
  | c :: cs => p.first.contains c && cs.all p.rest.contains

/-- The pattern of label names. -/
def labelName : NamePattern where
  first := [('A', 'Z'), ('a', 'z'), ('_', '_')]
  rest := [('A', 'Z'), ('a', 'z'), ('0', '9'), ('_', '_')]

example : labelName.accepts "cpu_usage" = true := by decide
example : labelName.accepts "9lives" = false := by decide
example : labelName.accepts "a\n" = false := by decide

end NamePattern

/-- A class as it is written. -/
def CharClass.source (k : CharClass) : String :=
  "[" ++ String.join (k.map fun (low, high) =>
    if low = high then String.singleton low else String.ofList [low, '-', high]) ++ "]"

/-- A pattern as it is written, with an anchor at both ends. -/
def NamePattern.source (p : NamePattern) : String :=
  "^" ++ p.first.source ++ p.rest.source ++ "*$"

example : NamePattern.labelName.source = "^[A-Za-z_][A-Za-z0-9_]*$" := by decide

/-- What matches patterns. -/
class PatternEngine where
  /-- Whether the pattern that is written so matches somewhere in the text. -/
  isMatch : String → String → Bool

/-- The engine that takes every pattern for that of label names. -/
instance : PatternEngine where
  isMatch _ text := NamePattern.labelName.accepts text

end MetricLabels
