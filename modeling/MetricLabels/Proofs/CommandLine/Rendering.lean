import MetricLabels.CommandLine.Run
import MetricLabels.Proofs.Template.Failure
import MetricLabels.Proofs.Template.Sources
import MetricLabels.Proofs.Text.Lines

/-!
# Rendering from the command line

Variables are given as options, each with a name, an equal sign and a value
(`assignment`).  A host passes the values of options on in order (`LawfulHost`).  The
name ends at the first equal sign, so it has none, and the value may have any
(`parseVariable_assignment`).

So the command reads the names and values as they were given, in order, and writes
what every source made of them renders.  The main statement is
`sources_agree_and_command_renders`.

The host that reads arguments here keeps the law: it takes one option after the other
(`read_options`).
-/

namespace MetricLabels.CommandLine

variable {pairs : List (String × String)}

/-! ## Values of variables -/

/-- A text is cut at the equal sign behind a name that has none. -/
theorem splitAtEqual_append {name : String} (plain : '=' ∉ name.toList) (value : String) :
    splitAtEqual (name ++ "=" ++ value) = some (name, value) := by
  have cut : (name ++ "=" ++ value).toList = name.toList ++ '=' :: value.toList := by simp
  rw [splitAtEqual, cut, takeWhile_append_cons plain, dropWhile_append_cons plain,
    String.ofList_toList]
  exact congrArg (fun value => some (name, value)) String.ofList_toList

/-- How a variable is given its value. -/
def assignment (p : String × String) : String := p.1 ++ "=" ++ p.2

/-- The name and the value of a variable are read as they were given. -/
theorem parseVariable_assignment {p : String × String} (plain : '=' ∉ p.1.toList) :
    parseVariable (assignment p) = .ok p := by
  rw [parseVariable, assignment, splitAtEqual_append plain]

/-- Names and values are read one by one as they were given. -/
theorem parseVariable_assignments (plain : ∀ p ∈ pairs, '=' ∉ p.1.toList) :
    List.Forall₂ (fun value p => parseVariable value = .ok p) (pairs.map assignment) pairs := by
  rw [List.forall₂_map_left_iff, List.forall₂_same]
  exact fun p member => parseVariable_assignment (plain p member)

/-! ## What is relied on of a host -/

/-- The option that gives a variable its value. -/
def variableOption (value : String) : String := "--var" ++ "=" ++ value

/-- The arguments that render a text.  The option that strips escapes stands between
the variables if it is given, and the text behind all options. -/
def renderArguments (before after : List String) (strip : Bool) (text : String) : List String :=
  "render" :: (before.map variableOption ++ ((if strip then ["--strip-escapes"] else []) ++
    (after.map variableOption ++ ["--", text])))

/-- What is relied on of a host. -/
class LawfulHost [Host] : Prop where
  /-- The values of an option that is given again and again are read one by one and
  passed on in order.  An option without a value may stand anywhere among them, and
  what stands behind `--` is no option. -/
  read_renderArguments : ∀ {parse : String → Except String (String × String)}
    {before after : List String} {values values' : List (String × String)} (strip : Bool)
    (text : String), List.Forall₂ (fun value p => parse value = .ok p) before values →
      List.Forall₂ (fun value p => parse value = .ok p) after values' →
        Host.read parse (renderArguments before after strip text) =
          .ok ⟨0, .render (values ++ values') strip, some text⟩

/-! ## The host that reads arguments here -/

section

variable {parse : String → Except String (String × String)} {options before after : List String}
  {values values' : List (String × String)} {a : Arguments} {value : String}

/-- The options of the command that renders. -/
def renderOptions : Options := ⟨["--strip-escapes"], some "--var"⟩

theorem toList_variableOption (value : String) : (variableOption value).toList =
    '-' :: '-' :: 'v' :: 'a' :: 'r' :: '=' :: value.toList := by
  rw [variableOption, String.toList_append]
  rfl

/-- An option with a value is no other option. -/
theorem variableOption_ne {option : String}
    (other : ∀ more, option.toList ≠ '-' :: '-' :: 'v' :: 'a' :: 'r' :: '=' :: more) :
    variableOption value ≠ option := by
  rintro rfl
  exact other _ (toList_variableOption value)

theorem isOption_variableOption (value : String) : isOption (variableOption value) = true := by
  rw [isOption, toList_variableOption]
  rfl

theorem verbosity?_variableOption (value : String) : verbosity? (variableOption value) = none := by
  rw [verbosity?, if_neg (variableOption_ne (by simp)), toList_variableOption]
  rfl

theorem isHelp_variableOption (value : String) : isHelp (variableOption value) = false := by
  have notWord : (variableOption value == "--help") = false :=
    beq_eq_false_iff_ne.mpr (variableOption_ne (by simp))
  rw [isHelp, notWord, letter?, toList_variableOption]
  rfl

theorem splitAtEqual_variableOption (value : String) :
    splitAtEqual (variableOption value) = some ("--var", value) :=
  splitAtEqual_append (by decide) value

/-- One value is read and put behind those that were read before. -/
theorem read_option {p : String × String} (parsed : parse value = .ok p) (a : Arguments)
    (rest : List String) : Arguments.read parse renderOptions a (variableOption value :: rest) =
      Arguments.read parse renderOptions { a with values := a.values ++ [p] } rest := by
  have notEnd : variableOption value ≠ "--" := variableOption_ne (by simp)
  have notFlag : variableOption value ∉ renderOptions.flags := by
    rw [renderOptions, List.mem_singleton]
    exact variableOption_ne (by simp)
  have notAlone : renderOptions.assignments ≠ some (variableOption value) := by
    intro alone
    exact variableOption_ne (by simp) (Option.some.inj alone).symm
  have added : a.addValue parse "--var" value = .ok { a with values := a.values ++ [p] } := by
    rw [Arguments.addValue, parsed]
  rw [Arguments.read.eq_def parse renderOptions a (variableOption value :: rest)]
  simp only [notEnd, isOption_variableOption, verbosity?_variableOption, isHelp_variableOption,
    notFlag, notAlone, splitAtEqual_variableOption, if_false]
  exact congrArg (· >>= fun a => Arguments.read parse renderOptions a rest) added

/-- All values are read in order, behind those that were read before. -/
theorem read_options (parsed : List.Forall₂ (fun value p => parse value = .ok p) options values)
    (a : Arguments) (rest : List String) :
    Arguments.read parse renderOptions a (options.map variableOption ++ rest) =
      Arguments.read parse renderOptions { a with values := a.values ++ values } rest := by
  induction parsed generalizing a with
  | nil => rw [List.map_nil, List.nil_append, List.append_nil]
  | cons first _ ih =>
      rw [List.map_cons, List.cons_append, read_option first, ih, List.append_assoc]
      rfl

/-- The option that strips escapes is read if it was not given before. -/
theorem read_strip (fresh : a.flags = []) (rest : List String) :
    Arguments.read parse renderOptions a ("--strip-escapes" :: rest) =
      Arguments.read parse renderOptions { a with flags := ["--strip-escapes"] } rest := by
  have added : a.addFlag "--strip-escapes" = .ok { a with flags := ["--strip-escapes"] } := by
    rw [Arguments.addFlag, fresh, if_neg (by simp)]
  have isOption : isOption "--strip-escapes" = true := by decide
  have notVerbose : verbosity? "--strip-escapes" = none := by decide
  have notHelp : isHelp "--strip-escapes" = false := by decide
  have isFlag : "--strip-escapes" ∈ renderOptions.flags := .head _
  rw [Arguments.read.eq_def parse renderOptions a ("--strip-escapes" :: rest)]
  simp only [isOption, notVerbose, notHelp, isFlag, added]
  rfl

/-- Behind all options, the text is read whatever it starts with. -/
theorem read_text (fresh : a.text = none) (text : String) :
    Arguments.read parse renderOptions a ["--", text] = .ok { a with text := some text } := by
  rw [Arguments.read, if_pos rfl, List.foldlM_cons, Arguments.addText, fresh]
  rfl

/-- All arguments behind the name of the command are read. -/
theorem read_renderArguments_tail
    (parsed : List.Forall₂ (fun value p => parse value = .ok p) before values)
    (parsed' : List.Forall₂ (fun value p => parse value = .ok p) after values') (strip : Bool)
    (text : String) :
    Arguments.read parse renderOptions ⟨0, none, [], []⟩
        (renderArguments before after strip text).tail =
      .ok ⟨0, some text, if strip then ["--strip-escapes"] else [], values ++ values'⟩ := by
  rw [renderArguments, List.tail_cons, read_options parsed]
  cases strip with
  | false =>
      rw [if_neg Bool.false_ne_true, List.nil_append, List.nil_append, read_options parsed',
        read_text rfl]
  | true =>
      rw [if_pos rfl, List.singleton_append, read_strip rfl, read_options parsed', read_text rfl]
      rfl

end

instance : LawfulHost where
  read_renderArguments {parse before after values values'} strip text parsed parsed' := by
    have arguments := read_renderArguments_tail parsed parsed' strip text
    have notVerbose : verbosity? "render" = none := by decide
    have notHelp : isHelp "render" = false := by decide
    have notVersion : isVersion "render" = false := by decide
    have command : command? "render" = some (renderOptions,
        fun a => .render a.values (a.flags.contains "--strip-escapes")) := rfl
    show readArguments parse 0 (renderArguments before after strip text) = _
    rw [renderArguments, List.tail_cons] at arguments
    rw [renderArguments, readArguments, notVerbose, notHelp, notVersion, command]
    simp only [arguments]
    cases strip <;> rfl

/-! ## Runs -/

/-- A text that is a template in one mode is one in all modes. -/
theorem exists_parseWith {text : String} {t : Template} (parsed : Template.parse text = .ok t)
    (options : Template.Options) : ∃ t, Template.parseWith options text = .ok t := by
  rcases Template.parseWith_ok_or_error {} text with ⟨_, sound⟩ | ⟨_, _, failed⟩
  · rcases Template.parseWith_ok_or_error options text with ⟨read, _⟩ | ⟨i, least, _⟩
    · exact read
    · exact absurd least.1 (sound i)
  · cases parsed.symm.trans failed

/-- The command fills in the last value of each name. -/
theorem run_render [Json.Library] {text : String} {t : Template} {strip : Bool}
    (parsed : Template.parseWith ⟨if strip then .strip else .preserve⟩ text = .ok t) :
    (Command.render pairs strip).run text = .success (filledIn pairs t.nodes ++ "\n") := by
  have rendered : t.render (Std.HashMap.ofList pairs) = filledIn pairs t.nodes :=
    render_of_value? (value?_hashMap pairs) t.nodes
  have output : (Command.render pairs strip).output text =
      .ok (filledIn pairs t.nodes ++ "\n") := by
    rw [← rendered]
    simp only [Command.output, parsed]
    exact congrArg Except.ok (by simp [onLines])
  rw [Command.run, output]

/-- Maps, label sets and references to them fill in the last value of each name.  So
does the command that renders, which is given the names and values as options, in any
places before or behind the option that strips escapes.  It writes that text and a line
feed, for every text that is a template, and with any host that passes the values of
options on in order. -/
theorem sources_agree_and_command_renders [Json.Library] [Host] [LawfulHost] :
    (∀ (pairs : List (String × String)) (nodes : List Template.Node),
      let hashMap : Std.HashMap String String := .ofList pairs
      let treeMap : Std.TreeMap String String := .ofList pairs
      let labels := LabelSet.ofList pairs
      (Template.render hashMap ⟨nodes⟩ = filledIn pairs nodes ∧
        Template.render treeMap ⟨nodes⟩ = filledIn pairs nodes ∧
        Template.render labels ⟨nodes⟩ = filledIn pairs nodes) ∧
      Template.render (Reference.mk hashMap) ⟨nodes⟩ = filledIn pairs nodes ∧
        Template.render (Reference.mk treeMap) ⟨nodes⟩ = filledIn pairs nodes ∧
        Template.render (Reference.mk labels) ⟨nodes⟩ = filledIn pairs nodes) ∧
    ∀ (before after : List (String × String)) (strip : Bool) (text : String) (stdin : ByteArray),
      (∀ p ∈ before ++ after, '=' ∉ p.1.toList) → (∃ t, Template.parse text = .ok t) →
        ∃ t, Template.parseWith ⟨if strip then .strip else .preserve⟩ text = .ok t ∧
          run (renderArguments (before.map assignment) (after.map assignment) strip text) stdin =
            ⟨0, filledIn (before ++ after) t.nodes ++ "\n",
              Host.log 0 (.render (before ++ after) strip) text⟩ := by
  constructor
  · intro pairs nodes hashMap treeMap labels
    have byHash := render_of_value? (value?_hashMap pairs) nodes
    have byTree := render_of_value? (value?_treeMap pairs) nodes
    have byLabels := render_of_value? (value?_labelSet pairs) nodes
    exact ⟨⟨byHash, byTree, byLabels⟩, (render_reference _ _).trans byHash,
      (render_reference _ _).trans byTree, (render_reference _ _).trans byLabels⟩
  · rintro before after strip text stdin plain ⟨_, parsed⟩
    obtain ⟨t, parsed'⟩ := exists_parseWith parsed ⟨if strip then .strip else .preserve⟩
    obtain ⟨plainBefore, plainAfter⟩ := List.forall_mem_append.mp plain
    refine ⟨t, parsed', ?_⟩
    rw [run, LawfulHost.read_renderArguments strip text (parseVariable_assignments plainBefore)
      (parseVariable_assignments plainAfter)]
    simp only [Invocation.run, Invocation.runOn, run_render parsed', Outcome.success,
      String.append_empty]

/-- A value with equal signs, a name that comes twice, a name without characters and
the name of the metric.  The dollar sign in the text is escaped. -/
theorem command_renders_last_values :
    run ["render", "--var=a=1", "--var==b", "--var=__name__=up", "--strip-escapes",
      "--var=a=2=3", "--", "$a-$\x7b\x7d-$\x7b__name__\x7d\\$a"] .empty =
        .success "2=3-b-up$a\n" := by
  have plain : ∀ p ∈ [("a", "1"), ("", "b"), ("__name__", "up")] ++ [("a", "2=3")],
      '=' ∉ p.1.toList := by decide
  have parsed : Template.parse "$a-$\x7b\x7d-$\x7b__name__\x7d\\$a" =
      .ok ⟨[.placeholder "a", .text "-", .placeholder "", .text "-", .placeholder "__name__",
        .text "\\$a"]⟩ := by decide +kernel
  have stripped : Template.parseWith ⟨.strip⟩ "$a-$\x7b\x7d-$\x7b__name__\x7d\\$a" =
      .ok ⟨[.placeholder "a", .text "-", .placeholder "", .text "-", .placeholder "__name__",
        .text "$a"]⟩ := by decide +kernel
  obtain ⟨t, read, ran⟩ :=
    sources_agree_and_command_renders.2 _ _ true _ ByteArray.empty plain ⟨_, parsed⟩
  cases stripped.symm.trans read
  have filled : filledIn ([("a", "1"), ("", "b"), ("__name__", "up")] ++ [("a", "2=3")])
      [.placeholder "a", .text "-", .placeholder "", .text "-", .placeholder "__name__",
        .text "$a"] ++ "\n" = "2=3-b-up$a\n" := by decide +kernel
  rw [filled] at ran
  exact ran

end MetricLabels.CommandLine
