import MetricLabels.Text.Name
import MetricLabels.Text.Numeral
import MetricLabels.Text.Quoted
import MetricLabels.Token.Basic

/-!
# Lexemes

A lexeme is a token without its place: the kind, the text, and how many
characters of the source belong to it.  `Lexeme.first` reads the lexeme that a
text without leading blanks starts with, and sees nothing but that text.  It
takes at least one character unless the text is empty
(`Lexeme.size_first_pos`).
-/

namespace MetricLabels

/-- A token without its place. -/
structure Lexeme where
  /-- The kind. -/
  kind : Token.Kind
  /-- The text. -/
  text : List Char
  /-- The number of characters before the place that the token reports. -/
  mark : Nat
  /-- The number of characters in all. -/
  size : Nat
deriving Repr, DecidableEq

namespace Lexeme

/-- An operator or punctuation mark: it has no text. -/
def bare (kind : Token.Kind) (size : Nat) : Lexeme := ⟨kind, [], 0, size⟩

/-- A lexeme whose text is what stands in the source. -/
def plain (kind : Token.Kind) (text : List Char) : Lexeme := ⟨kind, text, 0, text.length⟩

/-- The lexeme for quoted text with the given body, the opening quote included.
A closed string reports the place of the opening quote, and anything else the
place where the body broke off. -/
def ofQuoted (body : Quoted.Body) : Lexeme :=
  let size := body.size + 1
  match body.ending with
  | .closed => ⟨.string, body.text, 0, size⟩
  | .unterminated => ⟨.eof, body.text, body.width + 1, size⟩
  | .newline => ⟨.newline, body.text, body.width + 1, size⟩
  | .badEscape next => ⟨.badEscape, '\\' :: next.toList, body.width + 1, size⟩

/-- The lexeme of a character that starts no longer text, with the character
behind it. -/
def symbol (c : Char) (next : Option Char) : Lexeme :=
  match c, next with
  | '=', some '~' => bare .eqRegexp 2
  | '=', _ => bare .eq 1
  | '!', some '=' => bare .neq 2
  | '!', some '~' => bare .neqRegexp 2
  | '{', _ => bare .lbrace 1
  | '}', _ => bare .rbrace 1
  | '(', _ => bare .lparen 1
  | ')', _ => bare .rparen 1
  | ',', _ => bare .comma 1
  | c, _ => plain .invalid [c]

/-- The lexeme that a text starts with. -/
def first : List Char → Lexeme
  | [] => bare .eof 0
  | c :: cs =>
    if startsNumeral c then plain .number (Numeral.first (c :: cs))
    else if isWord c then plain .ident ((c :: cs).takeWhile isWord)
    else if Quoted.isQuote c then ofQuoted (Quoted.scan c cs)
    else symbol c cs.head?

example : first "cpu_1(".toList = ⟨.ident, "cpu_1".toList, 0, 5⟩ := by decide
example : first "!~\"x\"".toList = ⟨.neqRegexp, [], 0, 2⟩ := by decide
example : first "\"a\nb\"".toList = ⟨.newline, "a".toList, 2, 3⟩ := by decide
example : first "'a\\".toList = ⟨.badEscape, "\\".toList, 2, 3⟩ := by decide

/-! ## Progress -/

/-- Quoted text is one character longer than its body, however that ends. -/
theorem size_ofQuoted (body : Quoted.Body) : (ofQuoted body).size = body.size + 1 := by
  unfold ofQuoted
  split <;> rfl

/-- A symbol reports the place of its first character. -/
theorem mark_symbol (c : Char) (next : Option Char) : (symbol c next).mark = 0 := by
  unfold symbol
  split <;> rfl

theorem size_symbol_pos (c : Char) (next : Option Char) : 0 < (symbol c next).size := by
  unfold symbol
  split <;> exact Nat.succ_pos _

/-- A lexeme of a text that is not empty has at least one character. -/
theorem size_first_pos (c : Char) (cs : List Char) : 0 < (first (c :: cs)).size := by
  simp only [first]
  split
  next numeral => exact List.length_pos_iff.mpr (Numeral.first_ne_nil numeral)
  next =>
    split
    next word => simp [plain, word]
    next =>
      split
      next => exact size_ofQuoted _ ▸ Nat.succ_pos _
      next => exact size_symbol_pos _ _

end Lexeme

end MetricLabels
