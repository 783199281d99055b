/-!
# Commands and their host

A command does something with a text.  How the arguments of the program are taken
apart, and what is logged while a command works, is not decided here but by the
host of the program (`Host`).  The host is told only how the value of a variable is
written.
-/

namespace MetricLabels.CommandLine

/-- What to do with a text. -/
inductive Command where
  /-- Write its tokens. -/
  | tokens
  /-- Write its labels as JSON. -/
  | labels (pretty : Bool)
  /-- Write its canonical form as a label set. -/
  | format
  /-- Write its canonical form as a matcher, or the conditions as JSON. -/
  | matcher (json : Bool)
  /-- Write the names of its variables. -/
  | vars
  /-- Write it with the values of its variables. -/
  | render (values : List (String × String)) (strip : Bool)
deriving Repr, DecidableEq

/-- What the arguments ask for. -/
structure Invocation where
  /-- How often more messages are asked for. -/
  verbosity : Nat
  /-- What to do. -/
  command : Command
  /-- The text, if that is an argument. -/
  text : Option String
deriving Repr, DecidableEq

/-- What a run leaves behind. -/
structure Outcome where
  /-- The exit status. -/
  exit : Nat
  /-- What is written to the standard output. -/
  stdout : String
  /-- What is written to the standard error. -/
  stderr : String
deriving Repr, DecidableEq

namespace Outcome

/-- A run that wrote its result. -/
def success (stdout : String) : Outcome := ⟨0, stdout, ""⟩

/-- A run that was given a bad text. -/
def failure (stderr : String) : Outcome := ⟨1, "", stderr⟩

end Outcome

/-! ## Variables -/

/-- What stands before and behind the first equal sign. -/
def splitAtEqual (text : String) : Option (String × String) :=
  match text.toList.dropWhile (· != '=') with
  | [] => none
  | _ :: value => some (String.ofList (text.toList.takeWhile (· != '=')), String.ofList value)

/-- The name and the value of a variable, or why there is none. -/
def parseVariable (text : String) : Except String (String × String) :=
  match splitAtEqual text with
  | some pair => .ok pair
  | none => .error ("expected NAME=VALUE, got `" ++ text ++ "`")

/-! ## Hosts -/

/-- What the program relies on around it. -/
class Host where
  /-- What the arguments ask for.  If they are malformed, or ask for nothing but help
  or the version, that is answered at once.  The given function reads the value of a
  variable. -/
  read : (String → Except String (String × String)) → List String → Except Outcome Invocation
  /-- What is logged, at the given verbosity, while the command works on the text. -/
  log : Nat → Command → String → String

end MetricLabels.CommandLine
