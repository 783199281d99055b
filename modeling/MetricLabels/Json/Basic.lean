/-!
# JSON values

Only what the data of this library can hold has a value of its own: whole
numbers, and strings of whole characters.  Other numerals and strings are JSON
all the same and may stand where nobody looks, so the tree records that they are
there and no more.  The members of an object keep their order, and a key may
occur twice.
-/

namespace MetricLabels

/-- A JSON value. -/
inductive Json where
  /-- The value `null`. -/
  | null
  /-- The values `true` and `false`. -/
  | bool (value : Bool)
  /-- A number.  It has a value if it is written without a sign, a fraction and
  an exponent. -/
  | number (value : Option Nat)
  /-- A string.  It has a text unless half of a surrogate pair stands alone in
  it. -/
  | string (text : Option String)
  /-- An array. -/
  | array (items : List Json)
  /-- An object. -/
  | object (members : List (Option String × Json))
deriving Repr

namespace Json

/-- A whole number. -/
def nat (n : Nat) : Json := .number (some n)

/-- A text. -/
def str (text : String) : Json := .string (some text)

/-- An object with the given keys. -/
def record (members : List (String × Json)) : Json :=
  .object (members.map fun (key, value) => (some key, value))

end Json

end MetricLabels
