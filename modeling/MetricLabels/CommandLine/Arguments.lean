import MetricLabels.CommandLine.Host

/-!
# Arguments

The arguments name a command, and perhaps the text it is for and some options,
in any order.  An argument that starts with a hyphen and has more to it is an
option, up to an argument `--`, behind which none is.  A hyphen alone, or
nothing at all, is a text like any other.

`-v`, also repeated as in `-vv`, and `--verbose` are accepted anywhere and as
often as one likes, and are counted.  Help may be asked for anywhere, and the
version before the command.  Other options are those of the command.  An option
without a value may be given once.

The host that reads arguments like that logs nothing, however often it is asked
to.
-/

namespace MetricLabels.CommandLine

/-! ## Answers -/

namespace Outcome

/-- The version of the program. -/
def version : Outcome := success "labelsel 0.0.2\n"

/-- A short description of the program. -/
def help : Outcome :=
  success ("Parse metric label selectors and render title templates\n\n" ++
    "Usage: labelsel [OPTIONS] <COMMAND>\n\nCommands:\n" ++
    "  tokens   Print the token stream, one JSON object per line\n" ++
    "  labels   Parse a selector into a JSON object of labels\n" ++
    "  format   Print a selector in canonical form\n" ++
    "  matcher  Parse a selector with `=`, `!=`, `=~` and `!~` matchers\n" ++
    "  vars     List the variables a template references, one per line\n" ++
    "  render   Render a template\n" ++
    "  help     Print this message\n\nOptions:\n" ++
    "  -v, --verbose...  Log parser activity to stderr (-v debug, -vv trace)\n" ++
    "  -h, --help        Print help\n" ++
    "  -V, --version     Print version\n")

/-- A run that was given bad arguments. -/
def misuse (message : String) : Outcome :=
  ⟨2, "", "error: " ++ message ++ "\n\nUsage: labelsel [OPTIONS] <COMMAND>\n"⟩

end Outcome

/-! ## Options -/

/-- Whether an argument is an option. -/
def isOption (arg : String) : Bool :=
  match arg.toList with
  | '-' :: _ :: _ => true
  | _ => false

/-- How many messages more an argument asks for, if it does nothing else. -/
def verbosity? (arg : String) : Option Nat :=
  if arg = "--verbose" then some 1
  else
    match arg.toList with
    | '-' :: 'v' :: more => if more.all (· == 'v') then some (more.length + 1) else none
    | _ => none

/-- The letter of a short option, perhaps behind some `v`. -/
def letter? (arg : String) : Option Char :=
  match arg.toList with
  | '-' :: letters => (letters.dropWhile (· == 'v')).head?
  | _ => none

/-- Whether an argument asks for help. -/
def isHelp (arg : String) : Bool := arg == "--help" || letter? arg == some 'h'

/-- Whether an argument asks for the version. -/
def isVersion (arg : String) : Bool := arg == "--version" || letter? arg == some 'V'

/-! ## The arguments of a command -/

/-- The options that a command has. -/
structure Options where
  /-- The options without a value. -/
  flags : List String
  /-- The option whose values are names and values of variables. -/
  assignments : Option String

/-- The arguments of a command as far as they have been read. -/
structure Arguments where
  /-- How often more messages were asked for. -/
  verbosity : Nat
  /-- The text. -/
  text : Option String
  /-- The options without a value that were given. -/
  flags : List String
  /-- The names and values of variables, in order. -/
  values : List (String × String)
deriving Repr, DecidableEq

namespace Arguments

/-- Adds the text, of which there may be one. -/
def addText (a : Arguments) (text : String) : Except Outcome Arguments :=
  if a.text.isSome then .error (.misuse ("unexpected argument '" ++ text ++ "' found"))
  else .ok { a with text := some text }

/-- Adds an option without a value, which may be given once. -/
def addFlag (a : Arguments) (flag : String) : Except Outcome Arguments :=
  if flag ∈ a.flags then
    .error (.misuse ("the argument '" ++ flag ++ "' cannot be used multiple times"))
  else .ok { a with flags := flag :: a.flags }

/-- Adds the value of a variable. -/
def addValue (parse : String → Except String (String × String)) (a : Arguments) (option : String)
    (value : String) : Except Outcome Arguments :=
  match parse value with
  | .ok pair => .ok { a with values := a.values ++ [pair] }
  | .error message =>
    .error (.misuse ("invalid value '" ++ value ++ "' for '" ++ option ++ "': " ++ message))

/-- Reads the arguments behind the name of a command.  The value of an option
stands behind an equal sign or in the next argument, which then is no option. -/
def read (parse : String → Except String (String × String)) (options : Options) (a : Arguments) :
    List String → Except Outcome Arguments
  | [] => .ok a
  | arg :: rest =>
    if arg = "--" then rest.foldlM addText a
    else if !isOption arg then do read parse options (← a.addText arg) rest
    else
      match verbosity? arg with
      | some more => read parse options { a with verbosity := a.verbosity + more } rest
      | none =>
        if isHelp arg then .error .help
        else if arg ∈ options.flags then do read parse options (← a.addFlag arg) rest
        else if options.assignments = some arg then
          match rest with
          | [] => .error (.misuse ("a value is required for '" ++ arg ++ "'"))
          | value :: rest =>
            if isOption value then .error (.misuse ("a value is required for '" ++ arg ++ "'"))
            else do read parse options (← a.addValue parse arg value) rest
        else
          match splitAtEqual arg with
          | none => .error (.misuse ("unexpected argument '" ++ arg ++ "' found"))
          | some (option, value) =>
            if options.assignments = some option then do
              read parse options (← a.addValue parse option value) rest
            else .error (.misuse ("unexpected argument '" ++ arg ++ "' found"))

end Arguments

/-! ## Commands -/

/-- The options of the command of a name, and the command that it is with the options
that are given. -/
def command? : String → Option (Options × (Arguments → Command))
  | "tokens" => some (⟨[], none⟩, fun _ => .tokens)
  | "labels" => some (⟨["--pretty"], none⟩, fun a => .labels (a.flags.contains "--pretty"))
  | "format" => some (⟨[], none⟩, fun _ => .format)
  | "matcher" => some (⟨["--json"], none⟩, fun a => .matcher (a.flags.contains "--json"))
  | "vars" => some (⟨[], none⟩, fun _ => .vars)
  | "render" => some (⟨["--strip-escapes"], some "--var"⟩,
      fun a => .render a.values (a.flags.contains "--strip-escapes"))
  | _ => none

/-- What the arguments ask for, the first of them having asked for so many messages.
Help and the version are answered as soon as they are asked for, whatever comes
behind. -/
def readArguments (parse : String → Except String (String × String)) (verbosity : Nat) :
    List String → Except Outcome Invocation
  | [] => .error (.misuse "a command is required")
  | arg :: rest =>
    match verbosity? arg with
    | some more => readArguments parse (verbosity + more) rest
    | none =>
      if isHelp arg || arg = "help" && rest.head?.all (command? · |>.isSome) then .error .help
      else if isVersion arg then .error .version
      else
        match command? arg with
        | none => .error (.misuse ("unrecognized subcommand '" ++ arg ++ "'"))
        | some (options, command) => do
          let a ← Arguments.read parse options ⟨verbosity, none, [], []⟩ rest
          return ⟨a.verbosity, command a, a.text⟩

instance : Host where
  read parse := readArguments parse 0
  log _ _ _ := ""

end MetricLabels.CommandLine
