import MetricLabels.Json.Library
import MetricLabels.LabelSet.Basic
import MetricLabels.Matcher.Basic
import MetricLabels.Template.Parse

/-!
# The JSON form of the library's values

A label set is an object of its labels, in order.  A matcher and a template are
arrays of their parts.  A condition is a record, and so are tokens and positions,
and a node is a tagged value.  Operators, kinds of tokens and modes are names.

Each `ofJson?` asks a JSON library for what the `toJson` beside it told.
-/

namespace MetricLabels

open Json (Library)

variable [Library]

/-! ## Positions and tokens -/

namespace Position

/-- The position as a record. -/
def toJson (p : Position) : Json := .record [("line", .nat p.line), ("char", .nat p.column)]

/-- The position of a record. -/
def ofJson? (v : Json) : Option Position := do
  match ← Library.fields? ["line", "char"] v with
  | [some line, some column] => return ⟨← Library.nat? line, ← Library.nat? column⟩
  | _ => none

end Position

namespace Token

/-- The token as a record. -/
def toJson (t : Token) : Json :=
  .record [("type", .str t.kind.name), ("pos", t.pos.toJson), ("text", .str t.text)]

/-- The token of a record. -/
def ofJson? (v : Json) : Option Token := do
  match ← Library.fields? ["type", "pos", "text"] v with
  | [some kind, some pos, some text] =>
      return ⟨← Kind.ofName? (← Library.name? kind), ← Position.ofJson? pos, ← Library.text? text⟩
  | _ => none

end Token

/-! ## Label sets and matchers -/

namespace LabelSet

/-- The labels as the members of an object. -/
def toJson (s : LabelSet) : Json := .record (s.labels.map fun l => (l.name, .str l.value))

/-- The labels of an object.  Of two values for a name the later one stays, in
the slot of the earlier. -/
def ofJson? (v : Json) : Option LabelSet := (Library.entries? v).map ofList

end LabelSet

/-- The operator of a name. -/
def Operator.ofJson? (v : Json) : Option Operator := do ofSymbol? (← Library.name? v)

namespace Condition

/-- The condition as a record. -/
def toJson (c : Condition) : Json :=
  .record [("op", .str c.op.symbol), ("name", .str c.name), ("value", .str c.value)]

/-- The condition of a record. -/
def ofJson? (v : Json) : Option Condition := do
  match ← Library.fields? ["op", "name", "value"] v with
  | [some op, some name, some value] =>
      return ⟨← Operator.ofJson? op, ← Library.text? name, ← Library.text? value⟩
  | _ => none

end Condition

namespace Matcher

/-- The conditions as an array. -/
def toJson (m : Matcher) : Json := .array (m.conditions.map Condition.toJson)

/-- The conditions of an array. -/
def ofJson? (v : Json) : Option Matcher := do
  return ⟨← (← Library.items? v).mapM Condition.ofJson?⟩

end Matcher

/-! ## Templates -/

namespace Template

/-- The node as a tagged value. -/
def Node.toJson : Node → Json
  | text content => .record [("type", .str "text"), ("value", .str content)]
  | placeholder name => .record [("type", .str "variable"), ("value", .str name)]

/-- The node of a tagged value. -/
def Node.ofJson? (v : Json) : Option Node := do
  match ← Library.tagged? "type" "value" v with
  | ("text", content) => return text (← Library.text? content)
  | ("variable", name) => return placeholder (← Library.text? name)
  | _ => none

/-- The nodes as an array. -/
def toJson (t : Template) : Json := .array (t.nodes.map Node.toJson)

/-- The nodes of an array.  They may be such as no text spells out. -/
def ofJson? (v : Json) : Option Template := do
  return ⟨← (← Library.items? v).mapM Node.ofJson?⟩

/-- The options of a record, in which nothing is required. -/
def Options.ofJson? (v : Json) : Option Options := do
  match ← Library.fields? ["escape"] v with
  | [some escape] => return ⟨← EscapeMode.ofName? (← Library.name? escape)⟩
  | [none] => return {}
  | _ => none

end Template

end MetricLabels
