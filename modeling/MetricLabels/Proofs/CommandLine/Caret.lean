import MetricLabels.CommandLine.Run
import MetricLabels.Proofs.Selector.FirstFault
import MetricLabels.Proofs.Template.Failure
import MetricLabels.Proofs.Text.Lines
import MetricLabels.Proofs.Token.Tiling

/-!
# The caret points at the error

Positions are counted on the text, and a report finds the line of an error again by
its number.  The two agree.  The position of an error is a place in the text
(`Command.Refuses.exists_place`), and at a place the number of the line is that of
a piece that reaches as far as the column (`caretAt_behind`).

The main statement is `caret_points_at_error`, which covers every run that refuses
its text, whatever the host logs.
-/

namespace MetricLabels.CommandLine

variable {content text : List Char}

/-! ## The line of a report -/

theorem line_nil (n : Nat) : line n [] = [] := by
  induction n with
  | zero => rfl
  | succ n ih => exact ih

/-- The line of a report is that of the text, or empty if there is none. -/
theorem line_eq (n : Nat) (text : List Char) : line n text = (lines text)[n]?.getD [] := by
  induction n generalizing text with
  | zero =>
      by_cases lineFeed : '\n' ∈ text
      · obtain ⟨content, rest, rfl, plain⟩ := List.eq_append_cons_of_mem lineFeed
        rw [lines_append plain, line, takeWhile_append_cons plain]
        simp [dropReturn]
      · rw [lines_of_notMem lineFeed, line, takeWhile_of_notMem lineFeed]
        by_cases empty : text = [] <;> simp [empty]
  | succ n ih =>
      by_cases lineFeed : '\n' ∈ text
      · obtain ⟨content, rest, rfl, plain⟩ := List.eq_append_cons_of_mem lineFeed
        rw [lines_append plain, line, dropWhile_append_cons plain]
        exact ih rest
      · rw [lines_of_notMem lineFeed, line, dropWhile_of_notMem lineFeed, List.drop_nil, line_nil]
        by_cases empty : text = [] <;> simp [empty]

/-! ## The caret -/

/-- A caret below the line `shown`, in the column of the position `p`, stands at the
character of the text that is at `p`, or behind the piece that ends there. -/
structure CaretAt (text : List Char) (p : Position) (piece shown : List Char) : Prop where
  /-- Lines are counted from one. -/
  line_pos : 0 < p.line
  /-- Columns are counted from one. -/
  column_pos : 0 < p.column
  /-- There are enough line feeds before the line. -/
  line_le : p.line - 1 ≤ text.count '\n'
  /-- The line is the piece of the same number. -/
  piece_eq : (pieces text)[p.line - 1]? = some piece
  /-- The piece reaches as far as the column. -/
  column_le : p.column - 1 ≤ piece.length
  /-- In the column there is the character at the position, unless that is a line
  feed or the end of the text. -/
  character : ∃ before rest, text = before ++ rest ∧ p = .behind before ∧
    piece[p.column - 1]? = rest.head?.filter (· != '\n')
  /-- A carriage return is left out if a line feed stands behind the piece. -/
  shown_eq : shown = if p.line - 1 < text.count '\n' then dropReturn piece else piece
  /-- What is shown is the line of that number. -/
  isLine : shown = (lines text)[p.line - 1]?.getD []
  /-- There is such a line unless the piece is empty. -/
  missing : (lines text)[p.line - 1]? = none → piece = []

/-- At every place in a text there is a place for the caret. -/
theorem caretAt_behind (before rest : List Char) :
    ∃ piece shown, CaretAt (before ++ rest) (.behind before) piece shown := by
  obtain ⟨earlier, last, place, cut⟩ := Position.exists_pieces before
  obtain ⟨later, split⟩ := exists_pieces_eq_cons rest
  have whole : pieces (before ++ rest) =
      earlier ++ (last ++ rest.takeWhile (· != '\n')) :: later := by
    rw [cut, split, List.modifyHead_cons]
  have found : (pieces (before ++ rest))[earlier.length]? =
      some (last ++ rest.takeWhile (· != '\n')) := by
    rw [whole, List.getElem?_append_right (Nat.le_refl _), Nat.sub_self, List.getElem?_cons_zero]
  have enough : earlier.length ≤ (before ++ rest).count '\n' := by
    have size := congrArg List.length whole
    rw [length_pieces, List.length_append, List.length_cons] at size
    omega
  have reaches : last.length ≤ (last ++ rest.takeWhile (· != '\n')).length := by
    rw [List.length_append]
    exact Nat.le_add_right _ _
  obtain ⟨shown, missing⟩ := getD_linesOf found
  simp only [length_pieces, Nat.add_lt_add_iff_right] at shown
  rw [place]
  exact ⟨_, _, Nat.succ_pos _, Nat.succ_pos _, enough, found, reaches,
    ⟨before, rest, rfl, place.symm, getElem?_append_takeWhile last rest⟩, rfl, shown.symm, missing⟩

/-! ## Runs that refuse a text -/

/-- The command refuses the text because of the error. -/
def Command.Refuses (text : String) (e : ParseError) : Command → Prop
  | .tokens => False
  | .labels _ => LabelSet.parse text = .error e
  | .format => LabelSet.parse text = .error e
  | .matcher _ => Matcher.parse text = .error e
  | .vars => Template.parse text = .error e
  | .render _ strip => Template.parseWith ⟨if strip then .strip else .preserve⟩ text = .error e

/-- The arguments ask for the text to be dealt with.  It is one of them, or stands on
the standard input. -/
inductive Asks [Host] (args : List String) (stdin : ByteArray) (i : Invocation) (text : String) :
    Prop where
  | argument : Host.read parseVariable args = .ok i → i.text = some text → Asks args stdin i text
  | input : Host.read parseVariable args = .ok i → i.text = none → inputText? stdin = some text →
      Asks args stdin i text

section

variable {args : List String} {stdin : ByteArray} {i : Invocation} {c : Command} {text : String}
  {e : ParseError}

/-- A run is what the invocation makes of its text, wherever that comes from. -/
theorem Asks.run_eq [Json.Library] [Host] (asks : Asks args stdin i text) :
    run args stdin = i.runOn text := by
  cases asks with
  | argument request given => rw [run, request]; simp only [Invocation.run, given]
  | input request none input => rw [run, request]; simp only [Invocation.run, none, input]

/-- A command that refuses its text writes nothing. -/
theorem Command.Refuses.output_eq [Json.Library] (refuses : c.Refuses text e) :
    c.output text = .error e := by
  cases c with
  | tokens => cases refuses
  | labels | format => simp only [output, show LabelSet.parse text = _ from refuses]; rfl
  | matcher => simp only [output, show Matcher.parse text = _ from refuses]; rfl
  | vars => simp only [output, show Template.parse text = _ from refuses]; rfl
  | render => simp only [output, show Template.parseWith _ text = _ from refuses]; rfl

/-- The error of a selector is about one of its tokens, which has a place in the
text. -/
theorem exists_place_of_selector {d : Selector.Dialect}
    (failed : Selector.parse d text = .error e) :
    ∃ before, before <+: text.toList ∧ e.pos = .behind before := by
  obtain ⟨k, reports, _⟩ := Selector.reportsFault_of_parse failed
  obtain ⟨token, x, found, rfl, _⟩ := reports.report
  exact (tiling_tokenize text).exists_place token (List.mem_of_getElem? found)

/-- The error of a template is about a brace of it. -/
theorem exists_place_of_template {options : Template.Options}
    (failed : Template.parseWith options text = .error e) :
    ∃ before, before <+: text.toList ∧ e.pos = .behind before := by
  rcases Template.parseWith_ok_or_error options text with ⟨⟨t, read⟩, _⟩ | ⟨i, _, refused⟩
  · cases read.symm.trans failed
  · cases refused.symm.trans failed
    exact ⟨_, List.take_prefix _ _, rfl⟩

/-- The position of an error is a place in the text. -/
theorem Command.Refuses.exists_place (refuses : c.Refuses text e) :
    ∃ before, before <+: text.toList ∧ e.pos = .behind before := by
  cases c with
  | tokens => cases refuses
  | labels | format =>
      exact exists_place_of_selector (Selector.labelSet_parse_eq_error_iff.mp refuses)
  | matcher => exact exists_place_of_selector (Selector.matcher_parse_eq_error_iff.mp refuses)
  | vars => exact exists_place_of_template refuses
  | render => exact exists_place_of_template refuses

/-- A run that refuses its text has exit status one and writes to the standard error
only: what is logged, and then the number of the line, the line, the caret and the
message.  The caret stands at the character that the position of the error denotes. -/
theorem caret_points_at_error [Json.Library] [Host] (asks : Asks args stdin i text)
    (refuses : i.command.Refuses text e) :
    ∃ piece shown, CaretAt text.toList e.pos piece shown ∧
      run args stdin = ⟨1, "", Host.log i.verbosity i.command text ++
        ("ERROR AT LINE " ++ e.pos.line.repr ++ ":\n" ++
        String.ofList shown ++ "\n" ++
        String.ofList (List.replicate (e.pos.column - 1) ' ') ++ "^\n" ++
        "error: " ++ e.message ++ "\n")⟩ := by
  obtain ⟨before, ⟨rest, whole⟩, place⟩ := refuses.exists_place
  obtain ⟨piece, shown, caret⟩ := caretAt_behind before rest
  rw [whole, ← place] at caret
  refine ⟨piece, shown, caret, ?_⟩
  rw [asks.run_eq, Invocation.runOn, Command.run, refuses.output_eq, caret.isLine, ← line_eq]
  rfl

end

/-- A line feed breaks a string off.  The caret stands behind the carriage return,
which is not shown. -/
theorem caret_behind_carriage_return :
    (∃ piece shown, CaretAt "\x7ba=\"é\r\n\"\x7d".toList ⟨1, 7⟩ piece shown ∧
      run ["matcher", "\x7ba=\"é\r\n\"\x7d"] .empty = ⟨1, "", "" ++ ("ERROR AT LINE " ++
        Nat.repr 1 ++ ":\n" ++ String.ofList shown ++ "\n" ++
        String.ofList (List.replicate 6 ' ') ++ "^\n" ++
        "error: " ++ "expected string but got new line at 1:7" ++ "\n")⟩) ∧
    run ["matcher", "\x7ba=\"é\r\n\"\x7d"] .empty = ⟨1, "", "ERROR AT LINE 1:\n\x7ba=\"é\n" ++
      "      ^\nerror: expected string but got new line at 1:7\n"⟩ := by
  have request : Host.read parseVariable ["matcher", "\x7ba=\"é\r\n\"\x7d"] =
      .ok ⟨0, .matcher false, some "\x7ba=\"é\r\n\"\x7d"⟩ := by rfl
  have selector : Selector.parse .matchers "\x7ba=\"é\r\n\"\x7d" =
      .error (.unexpected (.token .string) .newline ⟨1, 7⟩) := by decide +kernel
  have refuses : (Command.matcher false).Refuses "\x7ba=\"é\r\n\"\x7d" _ :=
    Selector.matcher_parse_eq_error_iff.mpr selector
  have message : (ParseError.unexpected (.token .string) .newline ⟨1, 7⟩).message =
      "expected string but got new line at 1:7" := by decide +kernel
  have asks : Asks _ ByteArray.empty _ _ := .argument request rfl
  have caret := caret_points_at_error asks refuses
  rw [message] at caret
  exact ⟨caret, by decide +kernel⟩

end MetricLabels.CommandLine
