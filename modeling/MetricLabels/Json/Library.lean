import MetricLabels.Json.Printer
import MetricLabels.Json.Reader

/-!
# JSON libraries

The data of this library is told to a JSON library and asked back from it.
`Json.Library` is all that is asked: text is written and read, and a value is
questioned for its shape.  Each question is answered by `none` when the value
has another shape.

The library that is written out here answers with what data may look like.  A
record is an object, whose further members are ignored, or an array with the
fields in order, and a name is a string, or the only key of an object that has
nothing else.  A tagged value is a record of its type and its content.  The type
is a name in an object, and a string in an array.
-/

namespace MetricLabels.Json

/-- What is asked of a JSON library. -/
class Library where
  /-- The text of a value, on one line. -/
  write : Json → String
  /-- The text of a value, with a line for each of its parts. -/
  writePretty : Json → String
  /-- The value of a text. -/
  read? : String → Option Json
  /-- The number of a whole number that 64 bits can hold. -/
  nat? : Json → Option Nat
  /-- The text of a string. -/
  text? : Json → Option String
  /-- One of a fixed number of names. -/
  name? : Json → Option String
  /-- The items of an array. -/
  items? : Json → Option (List Json)
  /-- The keys of an object and their texts, in order. -/
  entries? : Json → Option (List (String × String))
  /-- The fields of a record with the given keys, in the order of the keys, with
  `none` for a field that is not there. -/
  fields? : List String → Json → Option (List (Option Json))
  /-- The type and the content of a tagged value, whose fields have the given
  keys. -/
  tagged? : String → String → Json → Option (String × Json)

/-- The value that a text has in a form. -/
def decode? [Library] {α : Type} (form? : Json → Option α) (text : String) : Option α := do
  form? (← Library.read? text)

/-! ## A library -/

/-- The text of a string. -/
def string? : Json → Option String
  | .string text => text
  | _ => none

/-- A whole number that 64 bits can hold. -/
def word? : Json → Option Nat
  | .number (some n) => if n < UInt64.size then some n else none
  | _ => none

/-- The items of an array. -/
def items? : Json → Option (List Json)
  | .array items => some items
  | _ => none

/-- One of a fixed number of names: a string, or the only key of an object. -/
def name? : Json → Option String
  | .string text => text
  | .object [(key, .null)] => key
  | _ => none

/-- The keys of an object and their texts. -/
def texts? : Json → Option (List (String × String))
  | .object members => members.mapM fun (key, v) => do return (← key, ← v.string?)
  | _ => none

/-- The members of an object, if all of its keys are texts. -/
def members? : Json → Option (List (String × Json))
  | .object members => members.mapM fun (key, v) => do return (← key, v)
  | _ => none

/-- The fields of a record, in the order of the keys, with `none` for a field
that is not there.  None of the keys may occur twice. -/
def fields? (keys : List String) : Json → Option (List (Option Json))
  | .array items =>
      if items.length ≤ keys.length then
        some (items.map some ++ List.replicate (keys.length - items.length) none)
      else none
  | v => do
      let members ← v.members?
      if keys.all fun key => members.countP (·.1 == key) ≤ 1 then
        some (keys.map fun key => List.lookup key members)
      else none

/-- The type and the content of a tagged value, whose fields have the given
keys. -/
def tagged? (type content : String) : Json → Option (String × Json)
  | .array [t, c] => do return (← t.string?, c)
  | .array _ => none
  | v => do
      match ← v.fields? [type, content] with
      | [some t, some c] => return (← t.name?, c)
      | _ => none

instance : Library where
  write := compact
  writePretty := pretty
  read? := parse?
  nat? := word?
  text? := string?
  name? := name?
  items? := items?
  entries? := texts?
  fields? := fields?
  tagged? := tagged?

end MetricLabels.Json
