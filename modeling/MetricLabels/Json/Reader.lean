import MetricLabels.Json.Basic
import MetricLabels.Json.Symbol

/-!
# Reading JSON

A reader takes the symbols one at a time.  It keeps the containers that are
still open, the innermost first, and what may come next.  A text is a JSON value
if the reader takes all of its symbols and ends with a value and no open
container.
-/

namespace MetricLabels.Json

/-- A container that is still open, with what stands in it so far, the latest
first. -/
inductive Frame where
  /-- An array. -/
  | array (items : List Json)
  /-- An object, and the key of the member that is being read. -/
  | object (members : List (Option String × Json)) (key : Option String)

/-- What may come next. -/
inductive Expects where
  /-- A value. -/
  | value
  /-- The first item of the innermost array, or its end. -/
  | firstItem
  /-- The first key of an object, or its end. -/
  | firstKey
  /-- A key of an object that has the given members. -/
  | key (members : List (Option String × Json))
  /-- The colon behind a key. -/
  | colon (members : List (Option String × Json)) (key : Option String)
  /-- What may follow a value: a comma, the end of the innermost container, or
  the end of the text. -/
  | separator (value : Json)

/-- The state between two symbols. -/
structure Reader where
  /-- The open containers, the innermost first. -/
  stack : List Frame
  /-- What may come next. -/
  expects : Expects

namespace Reader

/-- The reader at the start of a text. -/
def start : Reader := ⟨[], .value⟩

/-- Takes the first symbol of a value. -/
def enter (stack : List Frame) : Symbol → Option Reader
  | .null => some ⟨stack, .separator .null⟩
  | .bool value => some ⟨stack, .separator (.bool value)⟩
  | .number value => some ⟨stack, .separator (.number value)⟩
  | .string text => some ⟨stack, .separator (.string text)⟩
  | .openArray => some ⟨stack, .firstItem⟩
  | .openObject => some ⟨stack, .firstKey⟩
  | _ => none

/-- Takes a symbol. -/
def step : Reader → Symbol → Option Reader
  | ⟨stack, .value⟩, s => enter stack s
  | ⟨stack, .firstItem⟩, .closeArray => some ⟨stack, .separator (.array [])⟩
  | ⟨stack, .firstItem⟩, s => enter (.array [] :: stack) s
  | ⟨stack, .firstKey⟩, .closeObject => some ⟨stack, .separator (.object [])⟩
  | ⟨stack, .firstKey⟩, .string key => some ⟨stack, .colon [] key⟩
  | ⟨stack, .key members⟩, .string key => some ⟨stack, .colon members key⟩
  | ⟨stack, .colon members key⟩, .colon => some ⟨.object members key :: stack, .value⟩
  | ⟨.array items :: stack, .separator v⟩, .comma =>
      some ⟨.array (v :: items) :: stack, .value⟩
  | ⟨.array items :: stack, .separator v⟩, .closeArray =>
      some ⟨stack, .separator (.array (v :: items).reverse)⟩
  | ⟨.object members key :: stack, .separator v⟩, .comma =>
      some ⟨stack, .key ((key, v) :: members)⟩
  | ⟨.object members key :: stack, .separator v⟩, .closeObject =>
      some ⟨stack, .separator (.object ((key, v) :: members).reverse)⟩
  | _, _ => none

/-- The value that was read, if the text may end here. -/
def result? : Reader → Option Json
  | ⟨[], .separator v⟩ => some v
  | _ => none

end Reader

/-- The value of a text. -/
def parse? (text : String) : Option Json := do
  let symbols ← Symbol.all? text.toList
  let reader ← symbols.foldlM Reader.step .start
  reader.result?

end MetricLabels.Json
