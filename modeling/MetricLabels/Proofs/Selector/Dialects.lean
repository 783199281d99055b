import MetricLabels.Proofs.Selector.RoundTrip
import MetricLabels.Proofs.Selector.FirstFault

/-!
# The two dialects

A label set and a matcher are read by the same grammar, which differs in the
operators only.  So the two readers go through a text side by side
(`Agree`).  They give the same conditions, or fail at the same token and ask for
the same, where an equal sign counts as an operator.  They part at one kind of
place: where another operator stands than the equal sign, the reader of label
sets fails and that of matchers goes on.

The main statement is `parse_agrees`.  That the readers go side by side is shown
reader by reader, closed under sequence (`Agrees.bind`).  At which of the tokens
they fail follows from the places of the grammar.
-/

namespace MetricLabels

namespace Selector

open TokenReader Tokenizer

/-! ## Readers side by side -/

/-- The kind is that of an operator other than the equal sign. -/
def Unequal (kind : Token.Kind) : Prop := kind = .neq ∨ kind = .eqRegexp ∨ kind = .neqRegexp

/-- The error is that an equal sign is required where another operator stands. -/
def RequiresEqual (e : ParseError) : Prop :=
  ∃ found pos, e = .unexpected (.token .eq) found pos ∧ Unequal found

/-- What a reader of label sets and one of matchers make of the same tokens. -/
inductive Agree {α : Type} :
    Except ParseError α × Tokenizer → Except ParseError α × Tokenizer → Prop where
  /-- Both give the same. -/
  | value (a : α) (u : Tokenizer) : Agree (.ok a, u) (.ok a, u)
  /-- Both fail at the same token, and require the same. -/
  | fault {x : Expected} {found : Token.Kind} {pos : Position} {u : Tokenizer} :
      x ≠ .token .eq → x ≠ .operator →
      Agree (.error (.unexpected x found pos), u) (.error (.unexpected x found pos), u)
  /-- Both fail at a token that is no operator where one is required. -/
  | operator {found : Token.Kind} {pos : Position} {u : Tokenizer} :
      found.isOperator = false →
      Agree (.error (.unexpected (.token .eq) found pos), u)
        (.error (.unexpected .operator found pos), u)
  /-- The first fails at an operator other than the equal sign. -/
  | unequal {found : Token.Kind} {pos : Position} {u : Tokenizer}
      {r : Except ParseError α × Tokenizer} :
      Unequal found → Agree (.error (.unexpected (.token .eq) found pos), u) r

/-- The readers agree on all tokens. -/
def Agrees {α : Type} (x y : TokenReader α) : Prop := ∀ t, Agree (x t) (y t)

/-- Readers that agree may be followed by readers that agree. -/
theorem Agrees.bind {α β : Type} {x y : TokenReader α} {f g : α → TokenReader β}
    (first : Agrees x y) (rest : ∀ a, Agrees (f a) (g a)) : Agrees (x >>= f) (y >>= g) := by
  intro t
  have agree := first t
  rw [bind_apply, bind_apply]
  generalize x t = r, y t = r' at agree
  cases agree with
  | value a u => exact rest a u
  | fault notEq notOperator => exact .fault notEq notOperator
  | operator other => exact .operator other
  | unequal unequal => exact .unequal unequal

/-- Agreement is about errors, so it stays whatever is made of the values. -/
theorem Agree.map {α β : Type} {r r' : Except ParseError α × Tokenizer} (f : α → β)
    (agree : Agree r r') : Agree (r.1.map f, r.2) (r'.1.map f, r'.2) := by
  cases agree with
  | value a u => exact .value (f a) u
  | fault notEq notOperator => exact .fault notEq notOperator
  | operator other => exact .operator other
  | unequal unequal => exact .unequal unequal

theorem agrees_pure {α : Type} (a : α) : Agrees (pure a) (pure a) := fun t => .value a t

theorem agrees_peek : Agrees peek peek := fun t => .value t.peek.1 t.peek.2

theorem agrees_next : Agrees next next := fun t => .value t.next.1 t.next.2

/-- Where the equal sign is not required, nothing tells the dialects apart. -/
theorem agrees_expect {kind : Token.Kind} (notEq : kind ≠ .eq) :
    Agrees (expect kind) (expect kind) := by
  intro t
  rw [expect_apply]
  split
  next => exact .value _ _
  next => exact .fault (fun same => notEq (Expected.token.inj same)) Expected.noConfusion

/-- This is the one place where they differ. -/
theorem agrees_operator : Agrees (operator .labels) (operator .matchers) := by
  intro t
  rw [operator_apply, operator_apply]
  cases t.next.1.kind with
  | eq => exact .value _ _
  | neq => exact .unequal (.inl rfl)
  | eqRegexp => exact .unequal (.inr (.inl rfl))
  | neqRegexp => exact .unequal (.inr (.inr rfl))
  | _ => exact .operator rfl

/-- A condition agrees because its operator does. -/
theorem agrees_condition : Agrees (condition .labels) (condition .matchers) := by
  refine (agrees_expect Token.Kind.noConfusion).bind fun name => agrees_operator.bind fun op => ?_
  exact (agrees_expect Token.Kind.noConfusion).bind fun value => agrees_pure _

/-- A list agrees condition by condition. -/
theorem agree_conditions (t : Tokenizer) :
    Agree (conditions .labels t) (conditions .matchers t) := by
  -- A condition and a comma leave fewer tokens.
  induction n : t.remaining using Nat.strong_induction_on generalizing t with
  | h n ih =>
    subst n
    have first := agrees_condition t
    rw [conditions_apply, conditions_apply]
    generalize labels : condition .labels t = r, condition .matchers t = r' at first
    cases first with
    | value c u =>
        have fewer := Nat.lt_of_le_of_lt u.remaining_next_le (remaining_lt_of_condition labels)
        by_cases separated : u.next.1.kind = .comma
        · simp only [if_pos separated]
          split
          next => exact .value _ _
          next => exact (ih _ fewer u.next.2 rfl).map (c :: ·)
        · simp only [if_neg separated]
          exact .value _ _
    | fault notEq notOperator => exact .fault notEq notOperator
    | operator other => exact .operator other
    | unequal unequal => exact .unequal unequal

theorem agrees_braces : Agrees (braces .labels) (braces .matchers) := by
  refine (agrees_expect Token.Kind.noConfusion).bind fun left => agrees_peek.bind fun token => ?_
  split
  next =>
    refine (agrees_pure []).bind fun cs => ?_
    exact (agrees_expect Token.Kind.noConfusion).bind fun right => agrees_pure cs
  next =>
    have list : Agrees (ExceptT.mk (conditions .labels)) (ExceptT.mk (conditions .matchers)) :=
      agree_conditions
    refine list.bind fun cs => ?_
    exact (agrees_expect Token.Kind.noConfusion).bind fun right => agrees_pure cs

theorem agrees_read : Agrees (read .labels) (read .matchers) := by
  refine agrees_peek.bind fun token => ?_
  split
  next =>
    refine agrees_next.bind fun name => agrees_peek.bind fun behind => ?_
    split
    next => exact agrees_braces.bind fun cs => agrees_pure _
    next => exact agrees_pure _
  next => exact agrees_braces

theorem agrees_readAll : Agrees (readAll .labels) (readAll .matchers) :=
  agrees_read.bind fun cs =>
    (agrees_expect Token.Kind.noConfusion).bind fun _ => agrees_pure cs

/-- So the two readings of a text agree. -/
theorem exists_agree_parse (text : String) :
    ∃ u v, Agree (parse .labels text, u) (parse .matchers text, v) :=
  ⟨_, _, agrees_readAll (.ofString text)⟩

/-! ## The same words -/

section

variable {cs : List Condition} {c : Condition} {w : List Token}

/-- Of the operators of a matcher, a label set has the equal sign. -/
theorem operator?_labels_iff {kind : Token.Kind} {op : Operator} :
    Dialect.labels.operator? kind = some op ↔
      Dialect.matchers.operator? kind = some op ∧ op = .equal := by
  cases kind <;> simp [Dialect.operator?, Operator.ofKind?] <;> grind

theorem conditionWord_labels_iff :
    ConditionWord .labels c w ↔ ConditionWord .matchers c w ∧ c.op = .equal := by
  constructor
  · rintro ⟨named, operated, valued⟩
    obtain ⟨operated, equal⟩ := operator?_labels_iff.mp operated
    exact ⟨.intro named operated valued, equal⟩
  · rintro ⟨⟨named, operated, valued⟩, equal⟩
    exact .intro named (operator?_labels_iff.mpr ⟨operated, equal⟩) valued

/-- A word of one grammar is one of the other if all of its operators are equal
signs. -/
theorem listWord_labels_iff :
    ListWord .labels cs w ↔ ListWord .matchers cs w ∧ ∀ c ∈ cs, c.op = .equal := by
  constructor
  · intro word
    induction word with
    | last first =>
        obtain ⟨first, equal⟩ := conditionWord_labels_iff.mp first
        exact ⟨.last first, List.forall_mem_singleton.mpr equal⟩
    | more first separated _ ih =>
        obtain ⟨first, equal⟩ := conditionWord_labels_iff.mp first
        exact ⟨.more first separated ih.1, List.forall_mem_cons.mpr ⟨equal, ih.2⟩⟩
  · rintro ⟨word, equal⟩
    induction word with
    | last first =>
        exact .last (conditionWord_labels_iff.mpr ⟨first, equal _ (.head _)⟩)
    | more first separated _ ih =>
        obtain ⟨equal, rest⟩ := List.forall_mem_cons.mp equal
        exact .more (conditionWord_labels_iff.mpr ⟨first, equal⟩) separated (ih rest)

theorem bracesWord_labels_iff :
    BracesWord .labels cs w ↔ BracesWord .matchers cs w ∧ ∀ c ∈ cs, c.op = .equal := by
  constructor
  · intro word
    cases word with
    | empty opens closes => exact ⟨.empty opens closes, by simp⟩
    | list opens word closes =>
        obtain ⟨word, equal⟩ := listWord_labels_iff.mp word
        exact ⟨.list opens word closes, equal⟩
    | trailing opens word separated closes =>
        obtain ⟨word, equal⟩ := listWord_labels_iff.mp word
        exact ⟨.trailing opens word separated closes, equal⟩
  · rintro ⟨word, equal⟩
    cases word with
    | empty opens closes => exact .empty opens closes
    | list opens word closes => exact .list opens (listWord_labels_iff.mpr ⟨word, equal⟩) closes
    | trailing opens word separated closes =>
        exact .trailing opens (listWord_labels_iff.mpr ⟨word, equal⟩) separated closes

/-- The words of label sets are those of matchers that have no operator but the
equal sign. -/
theorem word_labels_iff :
    Word .labels cs w ↔ Word .matchers cs w ∧ ∀ c ∈ cs, c.op = .equal := by
  constructor
  · intro word
    cases word with
    | name named => exact ⟨.name named, List.forall_mem_singleton.mpr rfl⟩
    | braces word =>
        obtain ⟨word, equal⟩ := bracesWord_labels_iff.mp word
        exact ⟨.braces word, equal⟩
    | both named word =>
        obtain ⟨word, equal⟩ := bracesWord_labels_iff.mp word
        exact ⟨.both named word, List.forall_mem_cons.mpr ⟨rfl, equal⟩⟩
  · rintro ⟨word, equal⟩
    cases word with
    | name named => exact .name named
    | braces word => exact .braces (bracesWord_labels_iff.mpr ⟨word, equal⟩)
    | both named word =>
        exact .both named (bracesWord_labels_iff.mpr ⟨word, (List.forall_mem_cons.mp equal).2⟩)

/-- A text spells out labels if it is a matcher that has no other operators. -/
theorem parse_labels_eq_ok_iff {text : String} :
    parse .labels text = .ok cs ↔ parse .matchers text = .ok cs ∧ ∀ c ∈ cs, c.op = .equal := by
  rw [parse_eq_ok_iff, parse_eq_ok_iff]
  constructor
  · rintro ⟨w, u, word, rest⟩
    obtain ⟨word, equal⟩ := word_labels_iff.mp word
    exact ⟨⟨w, u, word, rest⟩, equal⟩
  · rintro ⟨⟨w, u, word, rest⟩, equal⟩
    exact ⟨w, u, word_labels_iff.mpr ⟨word, equal⟩, rest⟩

end

/-! ## The same places -/

section

variable {d : Dialect} {p q : Place} {kind : Token.Kind} {kinds : List Token.Kind}

/-- The dialects differ at one place only. -/
theorem next?_labels_of_ne (other : p ≠ .label) (kind : Token.Kind) :
    p.next? .labels kind = p.next? .matchers kind := by
  cases p with
  | label => exact absurd rfl other
  | _ => cases kind <;> rfl

/-- A matcher goes on wherever a label set does. -/
theorem next?_matchers_of_labels (next : p.next? .labels kind = some q) :
    p.next? .matchers kind = some q := by
  by_cases label : p = .label
  · subst label
    cases kind with
    | eq => exact next
    | _ => cases next
  · rw [← next?_labels_of_ne label, next]

/-- Where only a matcher goes on, it does so with an operator. -/
theorem unequal_of_next? (absent : p.next? .labels kind = none)
    (next : (p.next? .matchers kind).isSome) : p = .label ∧ Unequal kind := by
  by_cases label : p = .label
  · refine ⟨label, ?_⟩
    subst label
    cases kind with
    | neq => exact .inl rfl
    | eqRegexp => exact .inr (.inl rfl)
    | neqRegexp => exact .inr (.inr rfl)
    | eq => cases absent
    | _ => cases next
  · rw [← next?_labels_of_ne label, absent] at next
    cases next

/-- So it follows all kinds that a label set follows, to the same place. -/
theorem run_matchers_of_labels (run : p.run .labels kinds = some q) :
    p.run .matchers kinds = some q := by
  induction kinds generalizing p with
  | nil => exact run
  | cons kind kinds ih =>
      rw [Place.run_cons] at run ⊢
      obtain ⟨r, next, rest⟩ := Option.bind_eq_some_iff.mp run
      exact Option.bind_eq_some_iff.mpr ⟨r, next?_matchers_of_labels next, ih rest⟩

theorem viable_matchers_of_labels (viable : Viable .labels kinds) : Viable .matchers kinds := by
  rw [viable_iff] at viable ⊢
  obtain ⟨q, run⟩ := Option.isSome_iff_exists.mp viable
  rw [run_matchers_of_labels run]
  rfl

end

/-! ## The tokens at which the readers fail -/

variable {d : Dialect} {tokens : List Token} {e e' : ParseError} {j k : Nat}

/-- The place of the first fault, and the token that does not fit there. -/
theorem ReportsFault.exists_place (reports : ReportsFault d tokens k e) :
    ∃ p token x, Place.start.run d ((tokens.take (k - 1)).map Token.kind) = some p ∧
      tokens.take k = tokens.take (k - 1) ++ [token] ∧ p.next? d token.kind = none ∧
      e = .unexpected x token.kind token.pos ∧ ∀ kind, x.Covers kind → (p.next? d kind).isSome := by
  obtain ⟨token, x, found, rfl, fits, _⟩ := reports.report
  have positive : k ≠ 0 := by
    rintro rfl
    exact reports.least.1 (viable_iff.mpr rfl)
  obtain ⟨p, run⟩ : ∃ p, Place.start.run d ((tokens.take (k - 1)).map Token.kind) = some p := by
    rw [← Option.isSome_iff_exists, ← viable_iff]
    refine Classical.not_not.mp fun unviable => ?_
    have := reports.least.2 unviable
    omega
  have cut : tokens.take k = tokens.take (k - 1) ++ [token] := by
    obtain ⟨n, rfl⟩ := Nat.exists_eq_succ_of_ne_zero positive
    rw [Nat.succ_sub_one] at found ⊢
    rw [List.take_add_one, found, Option.toList_some]
  refine ⟨p, token, x, run, cut, ?_, rfl, fun kind covered =>
    (viable_snoc_iff run).mp (fits kind covered)⟩
  have unviable : ¬Viable d ((tokens.take k).map Token.kind) := reports.least.1
  rw [cut, List.map_append, List.map_singleton, viable_snoc_iff run] at unviable
  exact Option.not_isSome_iff_eq_none.mp unviable

/-- A token that does not fit into a matcher does not fit into a label set. -/
theorem ReportsFault.le (labels : ReportsFault .labels tokens j e)
    (matchers : ReportsFault .matchers tokens k e') : j ≤ k :=
  labels.least.2 fun viable => matchers.least.1 (viable_matchers_of_labels viable)

/-- What a label set requires at the place of an operator is the equal sign. -/
theorem eq_of_covers_label {x : Expected}
    (fits : ∀ kind, x.Covers kind → (Place.label.next? .labels kind).isSome) :
    x = .token .eq := by
  have only : ∀ kind, x.Covers kind → kind = .eq := by
    intro kind covered
    have member := fits kind covered
    rw [Place.isSome_next?, List.contains_iff_mem] at member
    exact List.mem_singleton.mp member
  cases x with
  | token kind => rw [only kind rfl]
  | operator => cases only .neq rfl

/-- If the tokens up to the fault of a label set can still become a matcher, the
equal sign is required and another operator stands there. -/
theorem ReportsFault.requiresEqual (labels : ReportsFault .labels tokens k e)
    (viable : Viable .matchers ((tokens.take k).map Token.kind)) : RequiresEqual e := by
  obtain ⟨p, token, x, run, cut, absent, rfl, fits⟩ := labels.exists_place
  rw [cut, List.map_append, List.map_singleton,
    viable_snoc_iff (run_matchers_of_labels run)] at viable
  obtain ⟨rfl, unequal⟩ := unequal_of_next? absent viable
  rw [eq_of_covers_label fits]
  exact ⟨_, _, rfl, unequal⟩

/-- The errors are about the same token.  They differ in what they call an
operator, and in nothing else. -/
inductive SameFault (tokens : List Token) (k : Nat) : ParseError → ParseError → Prop where
  | operator {found : Token.Kind} {pos : Position} : AtOperator tokens k →
      SameFault tokens k (.unexpected (.token .eq) found pos) (.unexpected .operator found pos)
  | other {x : Expected} {found : Token.Kind} {pos : Position} : ¬AtOperator tokens k →
      SameFault tokens k (.unexpected x found pos) (.unexpected x found pos)

/-- Where an operator may stand, a label set requires the equal sign. -/
theorem ReportsFault.eq_of_atOperator {x : Expected} {found : Token.Kind} {pos : Position}
    (labels : ReportsFault .labels tokens k (.unexpected x found pos))
    (place : AtOperator tokens k) : x = .token .eq := by
  obtain ⟨p, token, y, run, _, _, same, fits⟩ := labels.exists_place
  cases same
  obtain rfl : p = .label :=
    Place.eq_label_of_next?_eq ((viable_snoc_iff (run_matchers_of_labels run)).mp place)
  exact eq_of_covers_label fits

/-- Where a label set requires the equal sign and another operator stands, a
matcher goes on. -/
theorem ReportsFault.viable_of_unequal {found : Token.Kind} {pos : Position}
    (labels : ReportsFault .labels tokens k (.unexpected (.token .eq) found pos))
    (unequal : Unequal found) : Viable .matchers ((tokens.take k).map Token.kind) := by
  obtain ⟨p, token, y, run, cut, _, same, fits⟩ := labels.exists_place
  cases same
  obtain rfl : p = .label := Place.eq_label_of_next?_eq (fits .eq rfl)
  rw [cut, List.map_append, List.map_singleton, viable_snoc_iff (run_matchers_of_labels run)]
  rcases unequal with same | same | same <;> rw [same] <;> rfl

/-- Where both readers fail, that of label sets fails at the same token or at an
earlier one. -/
theorem Agree.reports {α : Type} {u v : Tokenizer}
    (agree : Agree ((.error e, u) : Except ParseError α × Tokenizer) (.error e', v))
    (labels : ReportsFault .labels tokens j e) (matchers : ReportsFault .matchers tokens k e') :
    j < k ∧ RequiresEqual e ∨ j = k ∧ SameFault tokens k e e' := by
  rcases Nat.lt_or_eq_of_le (labels.le matchers) with earlier | rfl
  · refine .inl ⟨earlier, labels.requiresEqual ?_⟩
    exact Classical.not_not.mp fun unviable => Nat.not_le_of_lt earlier (matchers.least.2 unviable)
  · refine .inr ⟨rfl, ?_⟩
    cases agree with
    | fault notEq notOperator => exact .other fun place => notEq (labels.eq_of_atOperator place)
    | operator other =>
        obtain ⟨token, x, _, same, fits, _⟩ := matchers.report
        cases same
        exact .operator (fits .eq rfl)
    | unequal unequal => exact absurd (labels.viable_of_unequal unequal) matchers.least.1

/-- A text is a label set exactly if it is a matcher whose operators are all the
equal sign.  The set has the names and values of the conditions inserted from
left to right.  A text that is no matcher is no label set.  Then the error of the
label set is about an earlier token, or about the same one and differs in what it
calls an operator only.  Where the label set fails and the matcher does not, or
does later, the equal sign is required and another operator stands there. -/
theorem parse_agrees (text : String) :
    (∀ s, LabelSet.parse text = .ok s ↔ ∃ m, Matcher.parse text = .ok m ∧
      (∀ c ∈ m.conditions, c.op = .equal) ∧
      s = .ofList (m.conditions.map fun c => (c.name, c.value))) ∧
    (∀ e', Matcher.parse text = .error e' → ∃ e j k, LabelSet.parse text = .error e ∧
      ReportsFault .labels (tokenize text) j e ∧ ReportsFault .matchers (tokenize text) k e' ∧
      (j < k ∧ RequiresEqual e ∨ j = k ∧ SameFault (tokenize text) k e e')) ∧
    (∀ e m, LabelSet.parse text = .error e → Matcher.parse text = .ok m → RequiresEqual e) := by
  obtain ⟨u, v, agree⟩ := exists_agree_parse text
  refine ⟨fun s => ⟨fun accepted => ?_, ?_⟩, fun e' refused => ?_, fun e m refused accepted => ?_⟩
  · obtain ⟨cs, parsed, rfl⟩ := labelSet_parse_eq_ok_iff.mp accepted
    obtain ⟨parsed, equal⟩ := parse_labels_eq_ok_iff.mp parsed
    exact ⟨⟨cs⟩, matcher_parse_eq_ok_iff.mpr parsed, equal, rfl⟩
  · rintro ⟨m, accepted, equal, rfl⟩
    have parsed := parse_labels_eq_ok_iff.mpr ⟨matcher_parse_eq_ok_iff.mp accepted, equal⟩
    exact labelSet_parse_eq_ok_iff.mpr ⟨_, parsed, rfl⟩
  · have refused := matcher_parse_eq_error_iff.mp refused
    cases labels : parse .labels text with
    | ok cs =>
        rw [(parse_labels_eq_ok_iff.mp labels).1] at refused
        cases refused
    | error e =>
        rw [labels, refused] at agree
        obtain ⟨j, first, _⟩ := reportsFault_of_parse labels
        obtain ⟨k, second, _⟩ := reportsFault_of_parse refused
        exact ⟨e, j, k, labelSet_parse_eq_error_iff.mpr labels, first, second,
          agree.reports first second⟩
  · rw [labelSet_parse_eq_error_iff.mp refused, matcher_parse_eq_ok_iff.mp accepted] at agree
    cases agree with
    | unequal unequal => exact ⟨_, _, rfl, unequal⟩

/-- A label set requires the equal sign where a matcher goes on, to the number
behind the operator or to the end. -/
theorem parse_agrees_up_to_unequal :
    (∃ j k, j < k ∧ ReportsFault .labels (tokenize "\x7ba!=1\x7d") j
        (.unexpected (.token .eq) .neq ⟨1, 3⟩) ∧
      ReportsFault .matchers (tokenize "\x7ba!=1\x7d") k
        (.unexpected (.token .string) .number ⟨1, 5⟩)) ∧
    Matcher.parse "\x7ba!=\"b\"\x7d" = .ok ⟨[⟨.notEqual, "a", "b"⟩]⟩ ∧
    ∃ e, LabelSet.parse "\x7ba!=\"b\"\x7d" = .error e ∧ RequiresEqual e := by
  constructor
  · have refused {d : Dialect} {e : ParseError} {u : Tokenizer}
        (list : conditions d ((Tokenizer.ofString "\x7ba!=1\x7d").skip 1) = (.error e, u)) :
        parse d "\x7ba!=1\x7d" = .error e := by
      rw [parse, readAll_of_read (read_of_conditions rfl Token.Kind.noConfusion list)]
    have labels : conditions .labels ((Tokenizer.ofString "\x7ba!=1\x7d").skip 1) =
        (.error (.unexpected (.token .eq) .neq ⟨1, 3⟩),
          (Tokenizer.ofString "\x7ba!=1\x7d").skip 3) := by
      rw [conditions_apply]
      rfl
    have matchers : conditions .matchers ((Tokenizer.ofString "\x7ba!=1\x7d").skip 1) =
        (.error (.unexpected (.token .string) .number ⟨1, 5⟩),
          (Tokenizer.ofString "\x7ba!=1\x7d").skip 4) := by
      rw [conditions_apply]
      rfl
    obtain ⟨e, j, k, failed, first, second, order⟩ := (parse_agrees "\x7ba!=1\x7d").2.1 _
      (matcher_parse_eq_error_iff.mpr (refused matchers))
    cases (refused labels).symm.trans (labelSet_parse_eq_error_iff.mp failed)
    rcases order with ⟨earlier, _⟩ | ⟨_, same⟩
    · exact ⟨j, k, earlier, first, second⟩
    · cases same
  · have writable : ∀ c ∈ [Condition.mk .notEqual "a" "b"], c.Writable .matchers :=
      List.forall_mem_singleton.mpr (Condition.writable_matchers_iff.mpr (by decide))
    have accepted : Matcher.parse "\x7ba!=\"b\"\x7d" = .ok ⟨[⟨.notEqual, "a", "b"⟩]⟩ := by
      have written : braced ([Condition.mk .notEqual "a" "b"].map Condition.format) =
          "\x7ba!=\"b\"\x7d" := by decide +kernel
      rw [matcher_parse_eq_ok_iff, ← written]
      exact parse_braced writable
    obtain ⟨accepts, _, unequal⟩ := parse_agrees "\x7ba!=\"b\"\x7d"
    refine ⟨accepted, ?_⟩
    cases failed : LabelSet.parse "\x7ba!=\"b\"\x7d" with
    | error e => exact ⟨e, rfl, unequal e _ failed accepted⟩
    | ok s =>
        obtain ⟨m, accepted', equal, _⟩ := (accepts s).mp failed
        cases accepted.symm.trans accepted'
        cases equal _ (.head _)

end Selector

end MetricLabels
