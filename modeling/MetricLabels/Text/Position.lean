/-!
# Positions

A position is a line and a column, both counted from one.  Columns count
characters, so a position follows from the text before it alone: `Position.after`
runs over that text, and `Position.after_append` says that it may be cut
anywhere.
-/

namespace MetricLabels

/-- A place in a text. -/
structure Position where
  /-- The line, from one. -/
  line : Nat
  /-- The character within the line, from one. -/
  column : Nat
deriving Repr, DecidableEq

namespace Position

/-- The place of the first character of any text. -/
def start : Position := ⟨1, 1⟩

/-- The place behind the character `c`.  A line feed opens the next line. -/
def advance (p : Position) (c : Char) : Position :=
  if c = '\n' then ⟨p.line + 1, 1⟩ else ⟨p.line, p.column + 1⟩

/-- The place behind a stretch of text. -/
def after (p : Position) (text : List Char) : Position := text.foldl advance p

/-- A position as it stands in messages: the line, a colon, the column. -/
def format (p : Position) : String := p.line.repr ++ ":" ++ p.column.repr

@[simp] theorem after_nil (p : Position) : p.after [] = p := rfl

@[simp] theorem after_cons (p : Position) (c : Char) (cs : List Char) :
    p.after (c :: cs) = (p.advance c).after cs := rfl

@[simp] theorem after_append (p : Position) (xs ys : List Char) :
    p.after (xs ++ ys) = (p.after xs).after ys := List.foldl_append

example : start.after "a\nbc".toList = ⟨2, 3⟩ := by decide

end Position

end MetricLabels
