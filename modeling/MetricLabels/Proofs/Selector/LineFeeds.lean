import MetricLabels.Proofs.Selector.RoundTrip
import MetricLabels.Proofs.Selector.FirstFault
import MetricLabels.Proofs.Text.Lines

/-!
# Values with line feeds

A value can be any text.  If it has no line feed, it is read back as it was,
whatever else is in it.  A line feed ends the quoted text that it stands in, and
the tokens before it lead to the place where a value is required
(`BreaksAtLineFeed`).  So the error is about the first line feed of the text
(`parse_of_breaksAtLineFeed`).

Between them the two cases leave no text that is read as something else
(`parse_format_never_injects`).
-/

namespace MetricLabels

namespace Selector

variable {d : Dialect} {a b : Place} {c : Condition} {cs : List Condition} {name value : String}
  {p q : Position} {s rest text : List Char}

/-! ## Up to the first line feed -/

/-- From a place on, the tokens of the text lead to where a value is required.  A
quote opens there, and a line feed follows that is the first of the text. -/
def BreaksAtLineFeed (d : Dialect) (a : Place) (p : Position) (text : List Char) : Prop :=
  ∃ w broken q rest, Tiles p text (w ++ [broken]) q rest ∧
    a.run d (w.map Token.kind) = some .operated ∧ broken.kind = .newline ∧
    broken.pos = p.after (text.takeWhile (· != '\n'))

/-- What stands before a break and has no line feed may be of any tokens that fit. -/
theorem BreaksAtLineFeed.append {w : List Token} (breaks : BreaksAtLineFeed d b q rest)
    (tiles : Tiles p (s ++ rest) w q rest) (run : a.run d (w.map Token.kind) = some b)
    (plain : '\n' ∉ s) : BreaksAtLineFeed d a p (s ++ rest) := by
  obtain ⟨v, broken, q', rest', tiles', run', isNewline, place⟩ := breaks
  refine ⟨w ++ v, broken, q', rest', ?_, ?_, isNewline, ?_⟩
  · rw [List.append_assoc]
    exact tiles.append tiles'
  · rw [List.map_append, Place.run_append, run]
    exact run'
  · rw [place, tiles.eq_after, List.takeWhile_append_of_pos (bne_of_notMem plain),
      Position.after_append]

/-- The line feed of a value breaks its string off, as the first in the text. -/
theorem breaks_value (lineFeed : '\n' ∈ value.toList) (p : Position) (rest : List Char) :
    BreaksAtLineFeed d .operated p ((Quoted.encode value).toList ++ rest) := by
  obtain ⟨first, later, _, plain, cut, spelled⟩ := Lexeme.exists_spells_lineFeed lineFeed rest
  have before : ((Quoted.encode value).toList ++ rest).takeWhile (· != '\n') =
      '"' :: Quoted.escape first := by
    rw [cut, List.cons_append, List.append_assoc, ← List.cons_append]
    exact takeWhile_append_cons plain later
  rw [BreaksAtLineFeed, before, cut]
  refine ⟨[], _, _, _, .single p spelled Token.Kind.noConfusion, rfl, rfl, ?_⟩
  simp [Lexeme.tokenAt, Lexeme.ofQuoted]

theorem newline_notMem_symbol (op : Operator) : '\n' ∉ op.symbol.toList := by
  cases op <;> decide

/-- A condition that can be written is written on one line. -/
theorem newline_notMem_format (writable : c.Writable d) : '\n' ∉ c.format.toList := by
  have encoded : '\n' ∉ (Quoted.encode c.value).toList := by
    simpa [Quoted.toList_encode, Quoted.newline_mem_escape_iff] using writable.plain
  rw [← List.append_nil c.format.toList, toList_format]
  simp [newline_notMem_of_accepts writable.named, newline_notMem_symbol, encoded]

/-- The name and the operator fit, so the text breaks at the value. -/
theorem breaks_condition (named : c.Named d) (lineFeed : '\n' ∈ c.value.toList) (p : Position)
    (rest : List Char) : BreaksAtLineFeed d .inside p (c.format.toList ++ rest) := by
  obtain ⟨name, sign, q, isName, _, operated, head⟩ := exists_headTiles named p rest
  have run : Place.inside.run d ([name, sign].map Token.kind) = some .operated := by
    simp [Place.run, Place.next?, isName, operated]
  have plain : '\n' ∉ c.name.toList ++ c.op.symbol.toList := by
    simp [newline_notMem_of_accepts named.named, newline_notMem_symbol]
  rw [← List.append_assoc] at head
  rw [toList_format, ← List.append_assoc]
  exact (breaks_value lineFeed q rest).append head run plain

/-- The conditions before the first with a line feed are read, and it breaks there. -/
theorem breaks_list : ∀ {cs : List Condition}, (∀ c ∈ cs, c.Named d) →
    (∃ c ∈ cs, '\n' ∈ c.value.toList) → ∀ (p : Position) (rest : List Char),
      BreaksAtLineFeed d .inside p
        ((",".intercalate (cs.map Condition.format)).toList ++ rest)
  | [], _, ⟨_, member, _⟩, _, _ => absurd member List.not_mem_nil
  | [c], named, ⟨_, member, lineFeed⟩, p, rest => by
      obtain rfl := List.mem_singleton.mp member
      rw [List.map_singleton, String.intercalate_singleton]
      exact breaks_condition (named _ (.head _)) lineFeed p rest
  | c :: c' :: cs, named, breaking, p, rest => by
      rw [toList_intercalate_cons, List.append_assoc, List.append_assoc]
      by_cases lineFeed : '\n' ∈ c.value.toList
      · exact breaks_condition (named c (.head _)) lineFeed p _
      · have writable : c.Writable d := Condition.writable_iff.mpr ⟨named c (.head _), lineFeed⟩
        have later : ∃ x ∈ c' :: cs, '\n' ∈ x.value.toList := by
          simpa [lineFeed] using breaking
        obtain ⟨w, q₁, word, tiles₁⟩ := exists_conditionWord writable p _
        obtain ⟨comma, q₂, separated, tiles₂⟩ :=
          exists_signTile .comma rfl Token.Kind.noConfusion q₁
        have rest := breaks_list (fun c member => named c (.tail _ member)) later q₂ rest
        have comma' : '\n' ∉ [','] := by decide
        refine BreaksAtLineFeed.append ?_ tiles₁ word.run_eq (newline_notMem_format writable)
        exact rest.append tiles₂ (by rw [List.map_singleton, separated]; rfl) comma'

/-- Conditions in braces break as the list of them does. -/
theorem breaks_braced (opens : a.next? d .lbrace = some .inside) (named : ∀ c ∈ cs, c.Named d)
    (lineFeed : ∃ c ∈ cs, '\n' ∈ c.value.toList) (p : Position) (rest : List Char) :
    BreaksAtLineFeed d a p ((braced (cs.map Condition.format)).toList ++ rest) := by
  rw [toList_braced]
  obtain ⟨left, q, isLeft, tiles⟩ := exists_signTile .lbrace rfl Token.Kind.noConfusion p
  refine (breaks_list named lineFeed q _).append tiles ?_ (by decide)
  rw [List.map_singleton, isLeft, Place.run_cons_of_next? opens, Place.run_nil]

/-- So do conditions in braces behind the name of a metric. -/
theorem breaks_name_append_braced (isName : NamePattern.labelName.accepts name = true)
    (named : ∀ c ∈ cs, c.Named d) (lineFeed : ∃ c ∈ cs, '\n' ∈ c.value.toList) (p : Position) :
    BreaksAtLineFeed d .start p (name ++ braced (cs.map Condition.format)).toList := by
  have stops : ∀ x ∈ ((braced (cs.map Condition.format)).toList ++ []).head?,
      isWord x = false := by
    rw [toList_braced]
    exact fun _ same => Option.some.inj same ▸ rfl
  obtain ⟨token, q, isIdent, _, tiles⟩ := exists_nameTile isName stops p
  rw [String.toList_append, ← List.append_nil (braced _).toList]
  have opens : Place.named.next? d .lbrace = some .inside := rfl
  refine (breaks_braced opens named lineFeed q []).append tiles ?_
    (newline_notMem_of_accepts isName)
  rw [List.map_singleton, isIdent]
  rfl

/-! ## The error -/

/-- The error for a text with a line feed in a value. -/
def lineFeedError (text : String) : ParseError :=
  .unexpected (.token .string) .newline (.behind (text.toList.takeWhile (· != '\n')))

/-- Only a value can be required where nothing else fits. -/
theorem eq_string_of_covers (x : Expected)
    (fits : ∀ kind, x.Covers kind → kind ∈ Place.operated.follow d) : x = .token .string := by
  cases x with
  | token kind => rw [List.mem_singleton.mp (fits kind rfl)]
  | operator => cases List.mem_singleton.mp (fits .eq rfl)

/-- A text that breaks is refused for want of a value, at its first line feed. -/
theorem parse_of_breaksAtLineFeed {text : String}
    (breaks : BreaksAtLineFeed d .start .start text.toList) :
    parse d text = .error (lineFeedError text) := by
  obtain ⟨w, broken, q, rest, tiles, run, isNewline, place⟩ := breaks
  obtain ⟨u, taken, _⟩ := Tokenizer.takes_of_tiles tiles (t := Tokenizer.ofString text) rfl rfl rfl
  obtain ⟨r, before, last⟩ := Tokenizer.Takes.append_iff.mp taken
  obtain ⟨rfl, _⟩ := Tokenizer.Takes.cons_iff.mp last
  have unfit : r.next.1.kind ∉ Place.operated.follow d := by
    rw [isNewline]
    exact fun member => nomatch member
  rw [parse_eq_error_of_takes before run unfit eq_string_of_covers Place.noConfusion, isNewline,
    place, Position.start_after, lineFeedError]

end Selector

/-! ## The text of a set -/

namespace LabelSet

open Selector

variable {s : LabelSet} {ls : List Label}

theorem named_of_accepts (named : ∀ l ∈ ls, NamePattern.labelName.accepts l.name = true) :
    ∀ c ∈ ls.map Label.condition, c.Named .labels :=
  List.forall_mem_map.mpr fun l member => ⟨rfl, named l member⟩

theorem condition_lineFeed (lineFeed : ∃ l ∈ ls, '\n' ∈ l.value.toList) :
    ∃ c ∈ ls.map Label.condition, '\n' ∈ c.value.toList := by
  obtain ⟨l, member, lineFeed⟩ := lineFeed
  exact ⟨l.condition, List.mem_map_of_mem member, lineFeed⟩

theorem bracedLabels_eq_braced (lineFeed : ∃ l ∈ ls, '\n' ∈ l.value.toList) :
    bracedLabels ls = braced ((ls.map Label.condition).map Condition.format) := by
  obtain ⟨l, member, _⟩ := lineFeed
  rw [bracedLabels, if_neg (by simpa using List.ne_nil_of_mem member), map_format]

/-- Labels in braces break if one of their values has a line feed. -/
theorem breaks_bracedLabels (named : ∀ l ∈ ls, NamePattern.labelName.accepts l.name = true)
    (lineFeed : ∃ l ∈ ls, '\n' ∈ l.value.toList) :
    BreaksAtLineFeed .labels .start .start (bracedLabels ls).toList := by
  have opens : Place.start.next? .labels .lbrace = some .inside := rfl
  rw [bracedLabels_eq_braced lineFeed, ← List.append_nil (braced _).toList]
  exact breaks_braced opens (named_of_accepts named) (condition_lineFeed lineFeed) .start []

/-- So does the text of a set, whether its metric is printed as a name or as a label. -/
theorem breaks_format (named : ∀ l ∈ s.labels, NamePattern.labelName.accepts l.name = true)
    (lineFeed : ∃ l ∈ s.labels, '\n' ∈ l.value.toList) :
    BreaksAtLineFeed .labels .start .start s.format.toList := by
  simp only [← s.perm_metricFirst.mem_iff] at named lineFeed
  rcases s.format_cases with braced | ⟨name, bare, first, format⟩
  · rw [braced]
    exact breaks_bracedLabels named lineFeed
  · rw [first] at named lineFeed
    -- A bare name has no line feed, so one of the other values has.
    have others : ∃ l ∈ s.others, '\n' ∈ l.value.toList := by
      simpa [newline_notMem_of_accepts bare] using lineFeed
    rw [format, bracedLabels_eq_braced others]
    exact breaks_name_append_braced bare
      (named_of_accepts fun l member => named l (.tail _ member)) (condition_lineFeed others)
      .start

/-- The error for the empty text: a selector starts with a name or a brace. -/
def emptyError : ParseError := .unexpected (.token .lbrace) .eof .start

/-- The empty set is printed as nothing, which is refused. -/
theorem parse_format_of_isEmpty (empty : s.isEmpty = true) :
    s.format = "" ∧ parse s.format = .error emptyError := by
  have printed := format_eq_empty (List.isEmpty_iff.mp empty)
  rw [printed]
  exact ⟨rfl, rfl⟩

/-- A set with a line feed in a value is not read back. -/
theorem parse_format_of_lineFeed
    (named : ∀ l ∈ s.labels, NamePattern.labelName.accepts l.name = true)
    (lineFeed : ∃ l ∈ s.labels, '\n' ∈ l.value.toList) :
    parse s.format = .error (lineFeedError s.format) :=
  labelSet_parse_eq_error_iff.mpr (parse_of_breaksAtLineFeed (breaks_format named lineFeed))

/-- Any other set is. -/
theorem parse_format_of_plain
    (named : ∀ l ∈ s.labels, NamePattern.labelName.accepts l.name = true)
    (labeled : s.isEmpty = false) (plain : ∀ l ∈ s.labels, '\n' ∉ l.value.toList) :
    ∃ t, parse s.format = .ok t ∧ (t == s) = true := by
  have writable : ∀ l ∈ s.labels, l.condition.Writable .labels :=
    fun l member => Label.writable_condition_iff.mpr ⟨named l member, plain l member⟩
  obtain ⟨t, parsed, labels⟩ :=
    exists_parse_format (List.isEmpty_eq_false_iff.mp labeled) writable
  exact ⟨t, parsed, beq_iff_perm.mpr (labels ▸ s.perm_metricFirst)⟩

end LabelSet

namespace Matcher

open Selector

/-- A matcher with a line feed in a value is not read back. -/
theorem parse_format_of_lineFeed {m : Matcher}
    (named : ∀ c ∈ m.conditions, NamePattern.labelName.accepts c.name = true)
    (lineFeed : ∃ c ∈ m.conditions, '\n' ∈ c.value.toList) :
    parse m.format = .error (lineFeedError m.format) := by
  have named' : ∀ c ∈ m.conditions, c.Named .matchers :=
    fun c member => ⟨by cases c.op <;> rfl, named c member⟩
  have opens : Place.start.next? .matchers .lbrace = some .inside := rfl
  have breaks := breaks_braced opens named' lineFeed .start []
  rw [List.append_nil] at breaks
  exact matcher_parse_eq_error_iff.mpr (parse_of_breaksAtLineFeed breaks)

/-- Any other matcher is. -/
theorem parse_format_of_plain {m : Matcher}
    (named : ∀ c ∈ m.conditions, NamePattern.labelName.accepts c.name = true)
    (plain : ∀ c ∈ m.conditions, '\n' ∉ c.value.toList) : parse m.format = .ok m :=
  matcher_parse_eq_ok_iff.mpr <| parse_braced fun c member =>
    Condition.writable_matchers_iff.mpr ⟨named c member, plain c member⟩

end Matcher

namespace Selector

/-- A label set whose names fit the pattern of label names is never read back as
another one.  It is read back as it was if it has labels and no value has a line
feed.  If a value has one, the first line feed of the text is where a value is
required.  The set without labels is the empty text, and where a brace is
required the text is at its end.

A matcher is read back as it was, or there is a line feed in one of its values
and the error is the same. -/
theorem parse_format_never_injects :
    (∀ s : LabelSet, (∀ l ∈ s.labels, NamePattern.labelName.accepts l.name = true) →
      (∀ t, LabelSet.parse s.format = .ok t → (t == s) = true) ∧
      ((∃ t, LabelSet.parse s.format = .ok t) ↔
        s.isEmpty = false ∧ ∀ l ∈ s.labels, '\n' ∉ l.value.toList) ∧
      (LabelSet.parse s.format = .error (lineFeedError s.format) ↔
        ∃ l ∈ s.labels, '\n' ∈ l.value.toList) ∧
      (LabelSet.parse s.format = .error (.unexpected (.token .lbrace) .eof ⟨1, 1⟩) ↔
        s.isEmpty = true) ∧
      (s.isEmpty = true → s.format = "")) ∧
    (∀ m : Matcher, (∀ c ∈ m.conditions, NamePattern.labelName.accepts c.name = true) →
      (∀ m', Matcher.parse m.format = .ok m' → m' = m) ∧
      ((∃ m', Matcher.parse m.format = .ok m') ↔ ∀ c ∈ m.conditions, '\n' ∉ c.value.toList) ∧
      (Matcher.parse m.format = .error (lineFeedError m.format) ↔
        ∃ c ∈ m.conditions, '\n' ∈ c.value.toList)) := by
  constructor
  · intro s named
    -- A set breaks at a line feed, is empty, or is read back.
    by_cases lineFeed : ∃ l ∈ s.labels, '\n' ∈ l.value.toList
    · have parsed := LabelSet.parse_format_of_lineFeed named lineFeed
      have labeled : s.isEmpty = false := by
        obtain ⟨l, member, _⟩ := lineFeed
        exact List.isEmpty_eq_false_iff.mpr (List.ne_nil_of_mem member)
      simp [parsed, labeled, lineFeed, lineFeedError]
    · have plain : ∀ l ∈ s.labels, '\n' ∉ l.value.toList := by simpa using lineFeed
      cases empty : s.isEmpty with
      | true =>
          obtain ⟨printed, parsed⟩ := LabelSet.parse_format_of_isEmpty empty
          rw [printed] at parsed ⊢
          simp [parsed, lineFeed, lineFeedError, LabelSet.emptyError, Position.start]
      | false =>
          obtain ⟨t, parsed, same⟩ := LabelSet.parse_format_of_plain named empty plain
          simpa [parsed, same, lineFeed] using plain
  · intro m named
    by_cases lineFeed : ∃ c ∈ m.conditions, '\n' ∈ c.value.toList
    · have parsed := Matcher.parse_format_of_lineFeed named lineFeed
      simp [parsed, lineFeed]
    · have plain : ∀ c ∈ m.conditions, '\n' ∉ c.value.toList := by simpa using lineFeed
      have parsed := Matcher.parse_format_of_plain named plain
      simpa [parsed, lineFeed] using plain

/-- The line feed is in the second label of a set, and in a matcher behind a quote
that is part of the value. -/
theorem parse_format_finds_lineFeed :
    LabelSet.parse (LabelSet.ofList [("a", "b"), ("c", "\n")]).format =
        .error (.unexpected (.token .string) .newline ⟨1, 11⟩) ∧
      Matcher.parse (Matcher.format ⟨[⟨.notPattern, "a", "\"\n"⟩]⟩) =
        .error (.unexpected (.token .string) .newline ⟨1, 8⟩) := by
  obtain ⟨_, _, set, _⟩ :=
    parse_format_never_injects.1 (LabelSet.ofList [("a", "b"), ("c", "\n")]) (by decide)
  obtain ⟨_, _, matcher⟩ :=
    parse_format_never_injects.2 ⟨[⟨.notPattern, "a", "\"\n"⟩]⟩ (by decide)
  exact ⟨set.mpr (by decide), matcher.mpr (by decide)⟩

end Selector

end MetricLabels
