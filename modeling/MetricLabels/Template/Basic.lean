import MetricLabels.LabelSet.Basic
import Std.Data.HashMap
import Std.Data.TreeMap

/-!
# Templates

A template is text with placeholders for the values of variables.  Rendering
puts the value of each variable in its place, and nothing where there is no
value.  A value is never looked at again, so a dollar sign in it is only a
dollar sign.

Variables take their values from anything that answers for a name: a function, a
map, or a label set, whose labels are then the variables.  A reference to a
source is one too.
-/

namespace MetricLabels

/-! ## Sources of variables -/

/-- Types of data in which variables can be looked up. -/
class VariableSource (σ : Type) where
  /-- The value of the variable of the given name. -/
  value? : σ → String → Option String

instance : VariableSource (String → Option String) where
  value? lookup := lookup

instance : VariableSource (Std.HashMap String String) where
  value? map name := map[name]?

instance : VariableSource (Std.TreeMap String String) where
  value? map name := map[name]?

instance : VariableSource LabelSet where
  value? := LabelSet.get?

/-- A source that stands for another one. -/
structure Reference (σ : Type) where
  /-- The source that it stands for. -/
  target : σ

instance {σ : Type} [VariableSource σ] : VariableSource (Reference σ) where
  value? data := VariableSource.value? data.target

/-! ## Nodes and templates -/

/-- A piece of a template. -/
inductive Template.Node where
  /-- Text that is rendered as it is. -/
  | text (content : String)
  /-- The place of a variable's value. -/
  | placeholder (name : String)
deriving Repr, DecidableEq

/-- The variable that a node stands for. -/
def Template.Node.name? : Node → Option String
  | text _ => none
  | placeholder name => some name

/-- The text of a node, given the values of variables. -/
def Template.Node.render (value : String → Option String) : Node → String
  | text content => content
  | placeholder name => (value name).getD ""

/-- Text with placeholders in it. -/
structure Template where
  /-- The pieces, in order. -/
  nodes : List Template.Node
deriving Repr, DecidableEq

namespace Template

/-- The names of the variables, each once, in the order in which they first
occur. -/
def variableNames (t : Template) : List String := (t.nodes.filterMap Node.name?).eraseDups

/-- The text of the template with the values of the variables. -/
def render {σ : Type} [VariableSource σ] (data : σ) (t : Template) : String :=
  String.join (t.nodes.map (Node.render (VariableSource.value? data)))

end Template

end MetricLabels
