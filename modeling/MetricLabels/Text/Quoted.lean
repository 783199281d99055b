/-!
# Quoted text

Text is written between double quotes, and a double quote or a backslash inside
it is preceded by a backslash (`Quoted.encode`).  The reader is more lenient:
either quote may enclose the text, as long as both ends agree, and a backslash
may precede a backslash or either quote (`Quoted.scan`).  A line feed is never
part of quoted text, with a backslash or without.
-/

namespace MetricLabels.Quoted

/-! ## Writing -/

/-- The text with a backslash before every double quote and backslash. -/
def escape (text : List Char) : List Char :=
  text.flatMap fun c => if c = '"' ∨ c = '\\' then ['\\', c] else [c]

/-- The text in double quotes. -/
def encode (text : String) : String :=
  String.ofList ('"' :: escape text.toList ++ ['"'])

/-! ## Reading -/

/-- The characters that may enclose quoted text. -/
def isQuote (c : Char) : Bool := c == '"' || c == '\''

/-- Whether a backslash may precede the character. -/
def isEscapable (c : Char) : Bool := c == '\\' || c == '"' || c == '\''

/-- What ends the body of quoted text. -/
inductive Ending where
  /-- The closing quote. -/
  | closed
  /-- The end of the input. -/
  | unterminated
  /-- A line feed. -/
  | newline
  /-- A backslash before a character that takes none, or before the end of the
  input. -/
  | badEscape (next : Option Char)
deriving Repr, DecidableEq

/-- The number of characters that the ending itself takes up. -/
def Ending.width : Ending → Nat
  | .closed => 1
  | .unterminated => 0
  | .newline => 1
  | .badEscape none => 1
  | .badEscape (some _) => 2

/-- The body of quoted text, from behind the opening quote. -/
structure Body where
  /-- The text, without the backslashes of its escapes. -/
  text : List Char
  /-- The number of characters that it is written with. -/
  width : Nat
  /-- What comes behind those. -/
  ending : Ending
deriving Repr, DecidableEq

/-- The body with one more character before it, written with `width`
characters. -/
def Body.cons (c : Char) (width : Nat) (b : Body) : Body :=
  { b with text := c :: b.text, width := b.width + width }

/-- The number of characters of the body and its ending. -/
def Body.size (b : Body) : Nat := b.width + b.ending.width

theorem Body.size_cons (c : Char) (width : Nat) (b : Body) :
    (b.cons c width).size = b.size + width := by
  rw [size, size]
  exact Nat.add_right_comm _ _ _

/-- Reads the body of text in the given quotes. -/
def scan (quote : Char) : List Char → Body
  | [] => ⟨[], 0, .unterminated⟩
  | c :: cs =>
    if c = quote then ⟨[], 0, .closed⟩
    else if c = '\n' then ⟨[], 0, .newline⟩
    else if c = '\\' then
      match cs with
      | [] => ⟨[], 0, .badEscape none⟩
      | e :: cs =>
        if isEscapable e then (scan quote cs).cons e 2
        else ⟨[], 0, .badEscape (some e)⟩
    else (scan quote cs).cons c 1

example : scan '"' "a\\\"b\"c".toList = ⟨"a\"b".toList, 4, .closed⟩ := by decide
example : scan '\'' "it\\s".toList = ⟨"it".toList, 2, .badEscape (some 's')⟩ := by decide
example : escape "a\"b".toList = "a\\\"b".toList := by decide

end MetricLabels.Quoted
