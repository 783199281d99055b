import MetricLabels.Text.Position

/-!
# Tokens

Selector text is read as a sequence of tokens.  Text that fits no token is a
token too: three kinds stand for a stray character, a line feed inside a string
and a bad escape.  So reading tokens never fails, and a grammar meets such text
as an unexpected kind.
-/

namespace MetricLabels

/-- The kinds of tokens. -/
inductive Token.Kind where
  /-- A character that starts no token. -/
  | invalid
  /-- The end of the text, also inside an open string. -/
  | eof
  /-- A word that does not start with a digit. -/
  | ident
  /-- A numeral. -/
  | number
  /-- Text between two equal quotes. -/
  | string
  /-- A line feed inside a string. -/
  | newline
  /-- A backslash inside a string before a character that takes none. -/
  | badEscape
  /-- The sign `=`. -/
  | eq
  /-- The signs `!=`. -/
  | neq
  /-- The signs `=~`. -/
  | eqRegexp
  /-- The signs `!~`. -/
  | neqRegexp
  /-- An opening brace. -/
  | lbrace
  /-- A closing brace. -/
  | rbrace
  /-- An opening parenthesis. -/
  | lparen
  /-- A closing parenthesis. -/
  | rparen
  /-- A comma. -/
  | comma
deriving Repr, DecidableEq

namespace Token.Kind

/-- What a message calls the kind. -/
def description : Kind → String
  | invalid => "invalid"
  | eof => "end of input"
  | ident => "identifier"
  | number => "number"
  | string => "string"
  | newline => "new line"
  | badEscape => "bad escape"
  | eq => "equal"
  | neq => "not equal"
  | eqRegexp => "equal pattern"
  | neqRegexp => "not equal pattern"
  | lbrace => "left brace"
  | rbrace => "right brace"
  | lparen => "left parenthesis"
  | rparen => "right parenthesis"
  | comma => "comma"

/-- What data calls the kind: one lower-case word. -/
def name : Kind → String
  | invalid => "invalid"
  | eof => "eof"
  | ident => "ident"
  | number => "number"
  | string => "string"
  | newline => "newline"
  | badEscape => "badescape"
  | eq => "eq"
  | neq => "neq"
  | eqRegexp => "eqregexp"
  | neqRegexp => "neqregexp"
  | lbrace => "lbrace"
  | rbrace => "rbrace"
  | lparen => "lparen"
  | rparen => "rparen"
  | comma => "comma"

/-- Every kind, in the order of the definition. -/
def all : List Kind :=
  [invalid, eof, ident, number, string, newline, badEscape, eq, neq, eqRegexp, neqRegexp,
    lbrace, rbrace, lparen, rparen, comma]

/-- The kind of the given name. -/
def ofName? (name : String) : Option Kind := all.find? (·.name == name)

theorem ofName?_name (k : Kind) : ofName? k.name = some k := by cases k <;> decide

/-- Whether the kind is one of the four operators that a condition may have. -/
def isOperator : Kind → Bool
  | eq | neq | eqRegexp | neqRegexp => true
  | _ => false

end Token.Kind

/-- A token and the place where it was found. -/
structure Token where
  /-- The kind. -/
  kind : Token.Kind
  /-- The place of the first character.  A line feed inside a string and a bad
  escape report their own place, and the end of the text that of the end. -/
  pos : Position
  /-- The word, the numeral, the contents of the string, or the characters that
  did not fit.  Empty for operators and punctuation. -/
  text : String
deriving Repr, DecidableEq

end MetricLabels
