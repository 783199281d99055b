import MetricLabels.CommandLine.Run

/-!
# The program

Reads the standard input if the arguments leave the text to it, and writes what
the run leaves behind.
-/

open MetricLabels.CommandLine

/-- Runs the command that the arguments name. -/
def main (args : List String) : IO UInt32 := do
  let reads := match Host.read parseVariable args with
    | .ok invocation => invocation.text.isNone
    | .error _ => false
  let stdin ← if reads then (← IO.getStdin).readBinToEnd else pure ByteArray.empty
  let outcome := run args stdin
  (← IO.getStdout).putStr outcome.stdout
  (← IO.getStderr).putStr outcome.stderr
  return outcome.exit.toUInt32
