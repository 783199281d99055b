import MetricLabels.Text.Name
import MetricLabels.Text.Quoted

/-!
# Labels

A label is a name and a value.  Any two texts make one; whether it is fit to be
stored is a separate question, which `Label.validate` answers.

Labels and conditions are written one after the other between braces, with a
comma between two of them and no blanks (`braced`).
-/

namespace MetricLabels

/-- A name and its value. -/
structure Label where
  /-- The name. -/
  name : String
  /-- The value. -/
  value : String
deriving Repr, DecidableEq

/-- Why a label is not fit to be stored. -/
inductive LabelError where
  /-- The name is empty. -/
  | emptyName
  /-- The name does not fit the pattern of label names. -/
  | invalidName (name : String)
  /-- The value of the label `name` is empty. -/
  | emptyValue (name : String)
deriving Repr, DecidableEq

/-- The message for a reader. -/
def LabelError.message : LabelError → String
  | emptyName => "empty label name"
  | invalidName name => "invalid label name: " ++ name
  | emptyValue _ => "empty label value"

namespace Label

/-- The label that holds the name of the metric. -/
def metricName : String := "__name__"

/-- Checks that the name fits the pattern of label names and that the value is
not empty.  The name is looked at first. -/
def validate [PatternEngine] (l : Label) : Except LabelError Unit :=
  if l.name = "" then .error .emptyName
  else if !PatternEngine.isMatch NamePattern.labelName.source l.name then
    .error (.invalidName l.name)
  else if l.value = "" then .error (.emptyValue l.name)
  else .ok ()

/-- The name as it is, an equal sign, and the value in quotes. -/
def format (l : Label) : String := l.name ++ "=" ++ Quoted.encode l.value

end Label

/-! ## Lists in braces -/

/-- The items between braces, separated by commas. -/
def braced (items : List String) : String := "\x7b" ++ ",".intercalate items ++ "\x7d"

example : braced [] = "\x7b\x7d" := by decide
example : braced ["a", "b"] = "\x7ba,b\x7d" := by decide

end MetricLabels
