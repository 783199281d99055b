import MetricLabels.Json.Basic
import MetricLabels.Json.Symbol

/-!
# Writing JSON

A value is written in one of two ways: compact, which is its symbols and nothing
between them, or pretty, with an item or member on each line, two spaces of
indentation for each open container, and a space behind each colon.  A container
with nothing in it has no lines of its own.
-/

namespace MetricLabels.Json

/-! ## Compact -/

mutual

/-- The symbols of a value. -/
def symbols : Json → List Symbol
  | null => [.null]
  | bool value => [.bool value]
  | number value => [.number value]
  | string text => [.string text]
  | array items => .openArray :: itemSymbols items ++ [.closeArray]
  | object members => .openObject :: memberSymbols members ++ [.closeObject]

/-- The symbols of the items of an array. -/
def itemSymbols : List Json → List Symbol
  | [] => []
  | [v] => v.symbols
  | v :: w :: vs => v.symbols ++ .comma :: itemSymbols (w :: vs)

/-- The symbols of the members of an object. -/
def memberSymbols : List (Option String × Json) → List Symbol
  | [] => []
  | [(key, v)] => .string key :: .colon :: v.symbols
  | (key, v) :: m :: ms => .string key :: .colon :: v.symbols ++ .comma :: memberSymbols (m :: ms)

end

/-- The compact text of a value. -/
def compact (v : Json) : String := String.ofList (v.symbols.flatMap Symbol.text)

/-! ## Pretty -/

/-- The start of a line inside `depth` containers. -/
def newline (depth : Nat) : List Char := '\n' :: List.replicate (2 * depth) ' '

mutual

/-- A value inside `depth` containers. -/
def lines (depth : Nat) : Json → List Char
  | array (v :: vs) => '[' :: itemLines (depth + 1) (v :: vs) ++ newline depth ++ [']']
  | object (m :: ms) => '{' :: memberLines (depth + 1) (m :: ms) ++ newline depth ++ ['}']
  | v => v.symbols.flatMap Symbol.text

/-- The items of an array, inside `depth` containers. -/
def itemLines (depth : Nat) : List Json → List Char
  | [] => []
  | [v] => newline depth ++ v.lines depth
  | v :: w :: vs => newline depth ++ v.lines depth ++ ',' :: itemLines depth (w :: vs)

/-- The members of an object, inside `depth` containers. -/
def memberLines (depth : Nat) : List (Option String × Json) → List Char
  | [] => []
  | [(key, v)] =>
      newline depth ++ (Symbol.string key).text ++ ':' :: ' ' :: v.lines depth
  | (key, v) :: m :: ms =>
      newline depth ++ (Symbol.string key).text ++ ':' :: ' ' :: v.lines depth ++
        ',' :: memberLines depth (m :: ms)

end

/-- The pretty text of a value. -/
def pretty (v : Json) : String := String.ofList (v.lines 0)

end MetricLabels.Json
