import MetricLabels.Codec
import MetricLabels.CommandLine.Arguments
import MetricLabels.Selector.Parse

/-!
# Running commands

A run turns the arguments and what stands on the standard input into what the
program writes and its exit status: zero, one if the input is refused, and what
the host says if the arguments are.  A command without a text takes it from the
standard input, less one line feed at its end.

A report of a parse error shows the line in which the error is, and a caret below
its column.  Lines end with a line feed.  A carriage return before that is part of
the line end, and one at the end of the last line, which has no line feed, is part
of the line.

What the host logs stands on the standard error in front of the report.
-/

namespace MetricLabels.CommandLine

/-! ## Reports -/

/-- The line of a text with the given number, from zero.  Behind the last line
all lines are empty. -/
def line : Nat → List Char → List Char
  | 0, text =>
    let content := text.takeWhile (· != '\n')
    if content.length < text.length ∧ content.getLast? = some '\r' then content.dropLast
    else content
  | n + 1, text => line n ((text.dropWhile (· != '\n')).drop 1)

/-- The report of an error in a text: its line, the caret and the message. -/
def report (text : String) (e : ParseError) : String :=
  "ERROR AT LINE " ++ e.pos.line.repr ++ ":\n" ++
    String.ofList (line (e.pos.line - 1) text.toList) ++ "\n" ++
    String.ofList (List.replicate (e.pos.column - 1) ' ') ++ "^\n" ++
    "error: " ++ e.message ++ "\n"

example : line 0 "ab\r\nc\r".toList = ['a', 'b'] := by decide
example : line 1 "ab\r\nc\r".toList = ['c', '\r'] := by decide
example : line 1 "ab\n".toList = [] := by decide

/-! ## Commands -/

/-- Every text on a line of its own. -/
def onLines (texts : List String) : String := String.join (texts.map (· ++ "\n"))

namespace Command

/-- What a command writes for a text. -/
def output [Json.Library] (text : String) : Command → Except ParseError String
  | tokens => return onLines ((tokenize text).map fun t => Json.Library.write t.toJson)
  | labels pretty => do
      let json := (← LabelSet.parse text).toJson
      return onLines [if pretty then Json.Library.writePretty json else Json.Library.write json]
  | format => do return onLines [(← LabelSet.parse text).format]
  | matcher json => do
      let m ← Matcher.parse text
      return onLines [if json then Json.Library.write m.toJson else m.format]
  | vars => do return onLines (← Template.parse text).variableNames
  | render values strip => do
      let template ← Template.parseWith ⟨if strip then .strip else .preserve⟩ text
      return onLines [template.render (Std.HashMap.ofList values)]

/-- A run of a command on a text. -/
def run [Json.Library] (c : Command) (text : String) : Outcome :=
  match c.output text with
  | .ok stdout => .success stdout
  | .error e => .failure (report text e)

end Command

/-! ## Runs -/

/-- The text without the line feed at its end. -/
def dropNewline (text : String) : String :=
  match text.toList.getLast? with
  | some '\n' => String.ofList text.toList.dropLast
  | _ => text

/-- The text on the standard input, unless that is no UTF-8. -/
def inputText? (stdin : ByteArray) : Option String := (String.fromUTF8? stdin).map dropNewline

/-- A run of a command on a text, with what is logged. -/
def Invocation.runOn [Json.Library] [Host] (i : Invocation) (text : String) : Outcome :=
  let outcome := i.command.run text
  { outcome with stderr := Host.log i.verbosity i.command text ++ outcome.stderr }

/-- A run of a command on its text.  No command starts without one, so nothing is
logged then. -/
def Invocation.run [Json.Library] [Host] (i : Invocation) (stdin : ByteArray) : Outcome :=
  match i.text with
  | some text => i.runOn text
  | none =>
    match inputText? stdin with
    | some text => i.runOn text
    | none => .failure "error: failed to read stdin: stream did not contain valid UTF-8\n"

/-- A run of the program. -/
def run [Json.Library] [Host] (args : List String) (stdin : ByteArray) : Outcome :=
  match Host.read parseVariable args with
  | .ok invocation => invocation.run stdin
  | .error outcome => outcome

end MetricLabels.CommandLine
