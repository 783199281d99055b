import MetricLabels.Label
import MetricLabels.Token.Basic

/-!
# Matchers

A matcher is a list of conditions on labels.  The order of the conditions
counts, and a label may occur in several of them.  Whether a value matches is
for others to decide: here a pattern is text like any other.
-/

namespace MetricLabels

/-- How a condition compares a label with its value. -/
inductive Operator where
  /-- The value is the given text: `=`. -/
  | equal
  /-- The value is another text: `!=`. -/
  | notEqual
  /-- The value fits the given pattern: `=~`. -/
  | pattern
  /-- The value does not fit the given pattern: `!~`. -/
  | notPattern
deriving Repr, DecidableEq

namespace Operator

/-- The operator as it is written. -/
def symbol : Operator → String
  | equal => "="
  | notEqual => "!="
  | pattern => "=~"
  | notPattern => "!~"

/-- Every operator, in the order of the definition. -/
def all : List Operator := [equal, notEqual, pattern, notPattern]

/-- The operator that is written so. -/
def ofSymbol? (symbol : String) : Option Operator := all.find? (·.symbol == symbol)

theorem ofSymbol?_symbol (op : Operator) : ofSymbol? op.symbol = some op := by
  cases op <;> decide

/-- The operator that a token of the given kind stands for. -/
def ofKind? : Token.Kind → Option Operator
  | .eq => some equal
  | .neq => some notEqual
  | .eqRegexp => some pattern
  | .neqRegexp => some notPattern
  | _ => none

/-- Whether the value is a pattern. -/
def isPattern : Operator → Bool
  | pattern | notPattern => true
  | _ => false

end Operator

/-- A condition on one label. -/
structure Condition where
  /-- How the label is compared. -/
  op : Operator
  /-- The name of the label. -/
  name : String
  /-- What it is compared with. -/
  value : String
deriving Repr, DecidableEq

/-- The name as it is, the operator, and the value in quotes. -/
def Condition.format (c : Condition) : String :=
  c.name ++ c.op.symbol ++ Quoted.encode c.value

/-- Conditions on labels, in order. -/
structure Matcher where
  /-- The conditions. -/
  conditions : List Condition
deriving Repr, DecidableEq

namespace Matcher

/-- The name of the metric: the value of the first condition that requires the
name label to be equal to something. -/
def metric? (m : Matcher) : Option String :=
  (m.conditions.find? fun c => c.op == .equal && c.name == Label.metricName).map Condition.value

/-- The number of conditions. -/
def size (m : Matcher) : Nat := m.conditions.length

/-- Whether there are no conditions. -/
def isEmpty (m : Matcher) : Bool := m.conditions.isEmpty

/-- The canonical text: all conditions in braces, the metric name among them. -/
def format (m : Matcher) : String := braced (m.conditions.map Condition.format)

end Matcher

end MetricLabels
