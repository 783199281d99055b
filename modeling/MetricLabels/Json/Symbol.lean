import MetricLabels.Json.Number
import MetricLabels.Json.Text

/-!
# The symbols of JSON text

JSON text is a sequence of symbols with blanks between them: brackets, braces,
commas, colons, and the values that are no containers.  `Symbol.all?` reads the
symbols of a text and `Symbol.text` writes one.
-/

namespace MetricLabels.Json

/-- A symbol of JSON text. -/
inductive Symbol where
  /-- An opening bracket. -/
  | openArray
  /-- A closing bracket. -/
  | closeArray
  /-- An opening brace. -/
  | openObject
  /-- A closing brace. -/
  | closeObject
  /-- A comma. -/
  | comma
  /-- A colon. -/
  | colon
  /-- The word `null`. -/
  | null
  /-- The words `true` and `false`. -/
  | bool (value : Bool)
  /-- A number, with its value if it is whole and has no sign. -/
  | number (value : Option Nat)
  /-- A string, with its text if no surrogate is alone in it. -/
  | string (text : Option String)
deriving Repr, DecidableEq

namespace Symbol

/-- A symbol as it is written.  A number or string without a value is written
as one that has none. -/
def text : Symbol → List Char
  | openArray => ['[']
  | closeArray => [']']
  | openObject => ['{']
  | closeObject => ['}']
  | comma => [',']
  | colon => [':']
  | null => "null".toList
  | bool true => "true".toList
  | bool false => "false".toList
  | number (some n) => digits n
  | number none => "-0".toList
  | string (some s) => quote s.toList
  | string none => "\"\\ud800\"".toList

/-- Blanks may stand between symbols. -/
def isBlank (c : Char) : Bool := c == ' ' || c == '\t' || c == '\n' || c == '\r'

/-- Reads the symbol that a text starts with. -/
def first? : List Char → Option (Symbol × List Char)
  | '[' :: rest => some (openArray, rest)
  | ']' :: rest => some (closeArray, rest)
  | '{' :: rest => some (openObject, rest)
  | '}' :: rest => some (closeObject, rest)
  | ',' :: rest => some (comma, rest)
  | ':' :: rest => some (colon, rest)
  | 'n' :: 'u' :: 'l' :: 'l' :: rest => some (null, rest)
  | 't' :: 'r' :: 'u' :: 'e' :: rest => some (bool true, rest)
  | 'f' :: 'a' :: 'l' :: 's' :: 'e' :: rest => some (bool false, rest)
  | '"' :: rest => (codes rest).map fun (numbers, rest) =>
      (string ((ofCodes numbers).map String.ofList), rest)
  | text => (takeNumber text).map fun (value, rest) => (number value, rest)

theorem length_lt_of_first? {text rest : List Char} {s : Symbol}
    (h : first? text = some (s, rest)) : rest.length < text.length := by
  unfold first? at h
  split at h
  case h_10 text =>
    obtain ⟨⟨numbers, rest'⟩, read, h⟩ := Option.map_eq_some_iff.mp h
    cases h
    exact Nat.lt_succ_of_lt (length_lt_of_codes read)
  case h_11 =>
    obtain ⟨⟨value, rest'⟩, read, h⟩ := Option.map_eq_some_iff.mp h
    cases h
    exact length_lt_of_takeNumber read
  all_goals
    cases h
    simp only [List.length_cons]
    omega

/-- The symbols of a text. -/
def all? (text : List Char) : Option (List Symbol) :=
  match h : text.dropWhile isBlank with
  | [] => some []
  | c :: cs =>
    match h' : first? (c :: cs) with
    | none => none
    | some (s, rest) =>
      have : rest.length < text.length :=
        Nat.lt_of_lt_of_le (length_lt_of_first? h')
          (h ▸ (List.dropWhile_sublist isBlank).length_le)
      (all? rest).map (s :: ·)
termination_by text.length

end Symbol

end MetricLabels.Json
