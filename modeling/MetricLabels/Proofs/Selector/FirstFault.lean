import Mathlib.Order.Bounds.Defs
import MetricLabels.Proofs.Selector.Places
import MetricLabels.Proofs.Selector.Reading

/-!
# An error reports the first fault

A text that is no selector has a first token with which it can no longer become
one.  The error is about that token: it reports the kind and the position of it,
and requires what could have stood there instead.  A reader that fails has
consumed the tokens up to that one, and no more.

The main statement is `parse_reports_first_fault`.  Each reader is shown to fault
at the place where it stands, for the places of `MetricLabels.Selector.Place`.
-/

namespace MetricLabels

/-- A token of the given kind is what is required. -/
def Expected.Covers : Expected → Token.Kind → Prop
  | token kind, other => other = kind
  | operator, other => other.isOperator

namespace Selector

open TokenReader Tokenizer

/-- What is required at a place may stand there.  It is any operator at the place of
one in a matcher, and nowhere else. -/
structure Place.Requires (d : Dialect) (p : Place) (x : Expected) : Prop where
  mem_follow : ∀ kind, x.Covers kind → kind ∈ p.follow d
  eq_operator_iff : x = .operator ↔ d = .matchers ∧ p = .label

/-- From a tokenizer at a place, the tokens lead on until one does not fit.  The
error is about that one, and requires what would have fitted.  The tokenizer
behind it is what is left. -/
inductive Faults (d : Dialect) : Place → Tokenizer → ParseError → Tokenizer → Prop where
  | here {p : Place} {t : Tokenizer} {x : Expected} :
      t.next.1.kind ∉ p.follow d → p.Requires d x →
      Faults d p t (.unexpected x t.next.1.kind t.next.1.pos) t.next.2
  | later {p q : Place} {t v : Tokenizer} {e : ParseError} :
      p.next? d t.next.1.kind = some q → Faults d q t.next.2 e v → Faults d p t e v

variable {d : Dialect} {p q : Place} {t u v : Tokenizer} {e : ParseError}

namespace Faults

/-- Tokens that fit may stand before a fault. -/
theorem after {w : List Token} (taken : t.Takes w u) : ∀ {p : Place},
    p.run d (w.map Token.kind) = some q → Faults d q u e v → Faults d p t e v := by
  induction taken with
  | refl =>
      intro p run fault
      cases run
      exact fault
  | next _ ih =>
      intro p run fault
      rw [List.map_cons, Place.run_cons] at run
      obtain ⟨r, next, rest⟩ := Option.bind_eq_some_iff.mp run
      exact .later next (ih rest fault)

/-- Where only one of the kinds that may come next is required, another kind is
a fault. -/
theorem of_expect {kind : Token.Kind} (failed : expect kind t = (.error e, v))
    (fits : kind ∈ p.follow d) (elsewhere : p ≠ .label)
    (only : t.next.1.kind ≠ kind → t.next.1.kind ∉ p.follow d) : Faults d p t e v := by
  rw [expect_apply] at failed
  split at failed
  next => cases failed
  next other =>
    cases failed
    refine .here (only other) ⟨fun covered same => ?_, ?_⟩
    · rw [show covered = kind from same]
      exact fits
    · exact iff_of_false Expected.noConfusion fun place => elsewhere place.2

end Faults

/-! ## Where each reader faults -/

/-- Between the name and the value of a condition, a dialect requires what may stand
there. -/
theorem requires_wanted (d : Dialect) : Place.label.Requires d d.wanted := by
  cases d with
  | labels =>
      refine ⟨fun kind covered => ?_, ?_⟩
      · rw [show kind = .eq from covered]
        exact .head _
      · exact iff_of_false Expected.noConfusion fun place => Dialect.noConfusion place.1
  | matchers =>
      refine ⟨fun kind covered => ?_, iff_of_true rfl ⟨rfl, rfl⟩⟩
      have isOperator : kind.isOperator = true := covered
      cases kind <;> simp_all [Place.follow, Token.Kind.isOperator]

theorem faults_of_operator (failed : operator d t = (.error e, v)) : Faults d .label t e v := by
  rw [operator_apply] at failed
  split at failed
  next => cases failed
  next absent =>
    cases failed
    refine .here ?_ (requires_wanted d)
    rw [← Place.next?_eq_none_iff, Place.next?, absent]
    rfl

/-- A condition faults at its name, its operator or its value. -/
theorem faults_of_condition (notClosed : t.next.1.kind ≠ .rbrace)
    (failed : condition d t = (.error e, v)) : Faults d .inside t e v := by
  rw [condition, bind_eq_error_iff] at failed
  rcases failed with failed | ⟨name, t₁, first, failed⟩
  · exact .of_expect failed (.head _) Place.noConfusion fun other => by
      simp [Place.follow, other, notClosed]
  obtain ⟨named, taken₁⟩ := expect_eq_ok_iff.mp first
  rcases bind_eq_error_iff.mp failed with failed | ⟨op, t₂, second, failed⟩
  · exact .after taken₁ (q := .label) (by simp [named, Place.run, Place.next?])
      (faults_of_operator failed)
  obtain ⟨sign, found, taken₂⟩ := operator_eq_ok_iff.mp second
  rcases bind_eq_error_iff.mp failed with failed | ⟨value, t₃, _, failed⟩
  · refine .after (taken₁.trans taken₂) (q := .operated)
      (by simp [named, found, Place.run, Place.next?]) ?_
    exact .of_expect failed (.head _) Place.noConfusion fun other => by
      simp [Place.follow, other]
  · cases failed

/-- A list faults in one of its conditions, by induction on the tokens that are left. -/
theorem faults_of_conditions (notClosed : t.next.1.kind ≠ .rbrace)
    (failed : conditions d t = (.error e, v)) : Faults d .inside t e v := by
  -- A condition and a comma leave fewer tokens.
  induction n : t.remaining using Nat.strong_induction_on generalizing t with
  | h n ih =>
    subst n
    rw [conditions_apply] at failed
    split at failed
    next first =>
      cases failed
      exact faults_of_condition notClosed first
    next c u first =>
      by_cases separated : u.next.1.kind = .comma
      · rw [if_pos separated] at failed
        by_cases closed : u.next.2.next.1.kind = .rbrace
        · rw [if_pos closed] at failed
          cases failed
        · rw [if_neg closed] at failed
          rcases more : conditions d u.next.2 with ⟨e' | cs, v'⟩
          · rw [more] at failed
            cases failed
            have fewer := Nat.lt_of_le_of_lt u.remaining_next_le (remaining_lt_of_condition first)
            have fault := ih _ fewer closed more rfl
            obtain ⟨w, word, taken⟩ := condition_eq_ok_iff.mp first
            exact .after taken word.run_eq (.later (by rw [separated]; rfl) fault)
          · rw [more] at failed
            cases failed
      · rw [if_neg separated] at failed
        cases failed

/-- Braces are read at a place where they may stand.  Whoever reads them has
excluded the other kinds that may stand there. -/
theorem faults_of_braces (opens : p.next? d .lbrace = some .inside)
    (only : t.next.1.kind ≠ .lbrace → t.next.1.kind ∉ p.follow d)
    (failed : braces d t = (.error e, v)) : Faults d p t e v := by
  have fits : .lbrace ∈ p.follow d := by
    rw [← List.contains_iff_mem, ← Place.isSome_next?, opens]
    rfl
  have elsewhere : p ≠ .label := by
    rintro rfl
    cases d <;> cases opens
  rw [braces_apply] at failed
  split at failed
  next left t₁ opened =>
    obtain ⟨isLeft, taken₁⟩ := expect_eq_ok_iff.mp opened
    have inside : p.run d ([left].map Token.kind) = some .inside := by
      rw [List.map_singleton, isLeft, Place.run_cons_of_next? opens, Place.run_nil]
    by_cases closed : t₁.next.1.kind = .rbrace
    · rw [if_pos closed] at failed
      cases failed
    · rw [if_neg closed] at failed
      split at failed
      next cs t₂ list =>
        split at failed
        next => cases failed
        next unclosed =>
          cases failed
          obtain ⟨w, u, word, taken₂, ends⟩ := listWord_of_conditions list
          rcases ends with ⟨other, rfl⟩ | ⟨_, closes, rfl⟩
          -- Behind the list stands neither a comma nor the closing brace.
          · rw [TokenReader.expect_peek] at unclosed
            refine .after taken₁ inside (.after taken₂ word.run_eq ?_)
            exact .of_expect unclosed (by simp [Place.follow]) Place.noConfusion fun open' => by
              simp [Place.follow, other, open']
          -- Behind the comma the reader has seen the closing brace, so that does not fail.
          · rw [TokenReader.expect_peek, expect_apply, if_pos closes] at unclosed
            cases unclosed
      next list =>
        cases failed
        exact .after taken₁ inside (faults_of_conditions closed list)
  next unopened =>
    cases failed
    exact .of_expect unopened fits elsewhere only

/-- A selector faults where it starts, or in its braces. -/
theorem faults_of_read (failed : read d t = (.error e, v)) : Faults d .start t e v := by
  rw [read_apply] at failed
  by_cases named : t.next.1.kind = .ident
  · rw [if_pos named] at failed
    by_cases opened : t.next.2.next.1.kind = .lbrace
    · rw [if_pos opened] at failed
      split at failed
      next => cases failed
      next body =>
        cases failed
        refine .later (q := .named) (by rw [named]; rfl) ?_
        exact faults_of_braces rfl (fun other => absurd opened other) body
    · rw [if_neg opened] at failed
      cases failed
  · rw [if_neg named] at failed
    exact faults_of_braces rfl (fun other => by simp [Place.follow, named, other]) failed

/-- Behind a selector, what is no end is a fault. -/
theorem faults_of_readAll (failed : readAll d t = (.error e, v)) : Faults d .start t e v := by
  rw [readAll, bind_eq_error_iff] at failed
  rcases failed with failed | ⟨cs, t₁, read, failed⟩
  · exact faults_of_read failed
  obtain ⟨w, u, word, taken, ends⟩ := read_eq_ok_iff.mp read
  rcases bind_eq_error_iff.mp failed with failed | ⟨_, _, _, failed⟩
  · rcases ends with ⟨one, single, rfl⟩ | ⟨long, rfl⟩
    · rw [TokenReader.expect_peek] at failed
      refine .after taken (word.run_eq.trans (by rw [if_pos one])) ?_
      exact .of_expect failed (by simp [Place.follow]) Place.noConfusion fun other => by
        simp [Place.follow, single, other]
    · refine .after taken (word.run_eq.trans (by rw [if_neg long])) ?_
      exact .of_expect failed (.head _) Place.noConfusion fun other => by
        simp [Place.follow, other]
  · cases failed

/-! ## The first fault of a text -/

/-- The fault, with the tokens before it and the place where they lead. -/
theorem Faults.exists_cut (fault : Faults d p t e v) :
    ∃ w u q x, t.Takes w u ∧ p.run d (w.map Token.kind) = some q ∧
      u.next.1.kind ∉ q.follow d ∧ q.Requires d x ∧
      e = .unexpected x u.next.1.kind u.next.1.pos ∧ v = u.next.2 := by
  induction fault with
  | here other fits => exact ⟨[], _, _, _, .refl _, rfl, other, fits, rfl, rfl⟩
  | later next _ ih =>
      obtain ⟨w, u, q, x, taken, run, rest⟩ := ih
      refine ⟨_ :: w, u, q, x, .next taken, ?_, rest⟩
      rw [List.map_cons, Place.run_cons_of_next? next, run]

/-- Every requirement can be met by some kind. -/
theorem exists_covers (x : Expected) : ∃ kind, x.Covers kind := by
  cases x with
  | token kind => exact ⟨kind, rfl⟩
  | operator => exact ⟨.eq, rfl⟩

/-- The `k`-th of the tokens stands where an operator may stand. -/
def AtOperator (tokens : List Token) (k : Nat) : Prop :=
  Viable .matchers ((tokens.take (k - 1)).map Token.kind ++ [.eq])

/-- The error is about the `k`-th token, the first with which the tokens can no
longer become a selector.  What the error requires could have come instead, and it
is any operator exactly where a matcher has one. -/
structure ReportsFault (d : Dialect) (tokens : List Token) (k : Nat) (e : ParseError) : Prop where
  least : IsLeast {n | ¬Viable d ((tokens.take n).map Token.kind)} k
  report : ∃ token x, tokens[k - 1]? = some token ∧ e = .unexpected x token.kind token.pos ∧
    (∀ kind, x.Covers kind → Viable d ((tokens.take (k - 1)).map Token.kind ++ [kind])) ∧
    (x = .operator ↔ d = .matchers ∧ AtOperator tokens k)

/-- A fault of the readers is the first fault of the tokens of the text. -/
theorem reportsFault_of_faults {text : String} (fault : Faults d .start (.ofString text) e v) :
    ∃ k, ReportsFault d (tokenize text) k e ∧ v = (Tokenizer.ofString text).skip k := by
  obtain ⟨w, u, q, x, taken, run, other, requires, rfl, rfl⟩ := fault.exists_cut
  -- Something is required, so the fault is not behind the end, and no token before it is an end.
  have going : q ≠ .ended := by
    rintro rfl
    obtain ⟨kind, covered⟩ := exists_covers x
    exact List.not_mem_nil (requires.mem_follow kind covered)
  have more : ∀ token ∈ w, token.kind ≠ .eof := by
    intro token member eof
    exact Place.eof_notMem_of_run run going (eof ▸ List.mem_map_of_mem member)
  obtain ⟨rest, tokens⟩ : ∃ rest, tokenize text = w ++ u.next.1 :: rest := by
    obtain ⟨cut, going⟩ := taken.drain_eq rfl more
    obtain ⟨rest, first⟩ := exists_drain_eq_cons going
    exact ⟨rest, cut.trans (by rw [first])⟩
  have cut : (tokenize text).take (w.length + 1 - 1) = w := by
    rw [tokens, Nat.add_sub_cancel, List.take_left]
  refine ⟨w.length + 1, ⟨⟨?_, ?_⟩, u.next.1, x, ?_, rfl, fun kind covered => ?_, ?_⟩,
    taken.snoc.eq_skip.trans (by simp)⟩
  · show ¬Viable d _
    rw [tokens, List.take_length_add_append, List.take_succ_cons, List.take_zero, List.map_append,
      List.map_singleton, viable_snoc_iff run, Place.isSome_next?, List.contains_iff_mem]
    exact other
  · intro n unviable
    refine Nat.lt_of_not_le fun short => unviable ?_
    rw [tokens, List.take_append_of_le_length short, viable_iff]
    rw [← List.take_append_drop n w, List.map_append, Place.run_append] at run
    obtain ⟨r, before, _⟩ := Option.bind_eq_some_iff.mp run
    rw [before]
    rfl
  · simp [tokens]
  · rw [cut, viable_snoc_iff run, Place.isSome_next?, List.contains_iff_mem]
    exact requires.mem_follow kind covered
  · rw [requires.eq_operator_iff, and_congr_right_iff]
    rintro rfl
    rw [AtOperator, cut, viable_snoc_iff run]
    exact ⟨fun place => place ▸ rfl, Place.eq_label_of_next?_eq⟩

/-! ## A fault decides the error -/

/-- Where the tokens lead to a place and the next one does not fit there, the
error is about that one. -/
theorem Faults.of_takes {w : List Token} (taken : t.Takes w u) : ∀ {p : Place},
    Faults d p t e v → p.run d (w.map Token.kind) = some q → u.next.1.kind ∉ q.follow d →
      ∃ x, e = .unexpected x u.next.1.kind u.next.1.pos ∧ q.Requires d x := by
  induction taken with
  | refl =>
      intro p fault run other
      cases run
      cases fault with
      | @here _ _ x _ requires => exact ⟨x, rfl, requires⟩
      | later next _ =>
          rw [Place.next?_eq_none_iff.mpr other] at next
          cases next
  | next _ ih =>
      intro p fault run other
      rw [List.map_cons, Place.run_cons] at run
      obtain ⟨r, next, rest⟩ := Option.bind_eq_some_iff.mp run
      cases fault with
      | here unfit _ =>
          rw [Place.next?_eq_none_iff.mpr unfit] at next
          cases next
      | later next' fault =>
          cases next.symm.trans next'
          exact ih fault rest other

/-- Tokens that lead to the end go on with one that fits wherever others lead. -/
theorem next_mem_follow {w : List Token} (taken : t.Takes w u) : ∀ {p : Place} {v : List Token}
    {r : Tokenizer}, p.run d (w.map Token.kind) = some q → q ≠ .ended → t.Takes v r →
      p.run d (v.map Token.kind) = some .ended → u.next.1.kind ∈ q.follow d := by
  induction taken with
  | refl =>
      intro p v r run going taken' whole
      cases run
      cases taken' with
      | refl => exact absurd (Option.some.inj whole) going
      | next _ =>
          rw [List.map_cons, Place.run_cons] at whole
          obtain ⟨_, next, _⟩ := Option.bind_eq_some_iff.mp whole
          rw [← List.contains_iff_mem, ← Place.isSome_next?, next]
          rfl
  | next _ ih =>
      intro p v r run going taken' whole
      rw [List.map_cons, Place.run_cons] at run
      obtain ⟨p', next, rest⟩ := Option.bind_eq_some_iff.mp run
      cases taken' with
      | refl =>
          cases whole
          rw [Place.next?_ended] at next
          cases next
      | next rest' =>
          rw [List.map_cons, Place.run_cons, next] at whole
          exact ih rest going rest' whole

/-- The tokens of a text lead to a place where the next one does not fit.  If only
one requirement can be met there, that is what the error asks for. -/
theorem parse_eq_error_of_takes {text : String} {w : List Token} {x : Expected}
    (taken : (Tokenizer.ofString text).Takes w u)
    (run : Place.start.run d (w.map Token.kind) = some q) (other : u.next.1.kind ∉ q.follow d)
    (only : ∀ y : Expected, (∀ kind, y.Covers kind → kind ∈ q.follow d) → y = x)
    (going : q ≠ .ended) :
    parse d text = .error (.unexpected x u.next.1.kind u.next.1.pos) := by
  cases parsed : parse d text with
  | error e =>
      obtain ⟨v, whole⟩ : ∃ v, readAll d (.ofString text) = (.error e, v) :=
        ⟨_, Prod.ext parsed rfl⟩
      obtain ⟨y, rfl, requires⟩ := (faults_of_readAll whole).of_takes taken run other
      rw [only y requires.mem_follow]
  | ok cs =>
      obtain ⟨v, r, word, taken', eof⟩ := parse_eq_ok_iff.mp parsed
      have whole : Place.start.run d ((v ++ [r.next.1]).map Token.kind) = some .ended := by
        rw [List.map_append, List.map_singleton, eof]
        exact word.run_append_eof
      exact absurd (next_mem_follow taken run going taken'.snoc whole) other

/-! ## The report of a text -/

/-- Behind an opening brace, an error in the conditions is one of the selector. -/
theorem read_of_conditions (opens : t.next.1.kind = .lbrace)
    (some : t.next.2.next.1.kind ≠ .rbrace) (failed : conditions d t.next.2 = (.error e, v)) :
    read d t = (.error e, v) := by
  have unnamed : t.next.1.kind ≠ .ident := by
    rw [opens]
    exact Token.Kind.noConfusion
  rw [read_apply, if_neg unnamed, braces_apply, expect_apply, if_pos opens]
  simp only [if_neg some, failed]

/-- What follows a selector is not looked at if the selector cannot be read. -/
theorem readAll_of_read (failed : read d t = (.error e, v)) : readAll d t = (.error e, v) :=
  bind_eq_error_iff.mpr (.inl failed)

/-- A text that is refused has a first fault.  If the selector itself could not
be read, the tokens up to the fault are consumed. -/
theorem reportsFault_of_parse {text : String} (failed : parse d text = .error e) :
    ∃ k, ReportsFault d (tokenize text) k e ∧
      ∀ e' u, read d (.ofString text) = (.error e', u) → u = (Tokenizer.ofString text).skip k := by
  rcases whole : readAll d (.ofString text) with ⟨result, v⟩
  obtain rfl : result = .error e := by
    rw [← failed, parse, whole]
  obtain ⟨k, reports, left⟩ := reportsFault_of_faults (faults_of_readAll whole)
  refine ⟨k, reports, fun e' u failed' => ?_⟩
  cases whole.symm.trans (readAll_of_read failed')
  exact left

/-- A text that is refused as a label set has a first token with which its tokens
can no longer become one.  The error is about that token, and requires what
could have come instead.  If the error comes from reading the selector, and not
from what is behind it, exactly the tokens up to that one are consumed.  The
same holds for matchers. -/
theorem parse_reports_first_fault (text : String) :
    (∀ e, LabelSet.parse text = .error e →
      ∃ k, ReportsFault .labels (tokenize text) k e ∧
        ∀ e' u, LabelSet.read (.ofString text) = (.error e', u) →
          u = (Tokenizer.ofString text).skip k) ∧
    (∀ e, Matcher.parse text = .error e →
      ∃ k, ReportsFault .matchers (tokenize text) k e ∧
        ∀ e' u, Matcher.read (.ofString text) = (.error e', u) →
          u = (Tokenizer.ofString text).skip k) := by
  simp only [labelSet_read_eq_error_iff, labelSet_parse_eq_error_iff, matcher_read_eq_error_iff,
    matcher_parse_eq_error_iff]
  exact ⟨fun _ => reportsFault_of_parse, fun _ => reportsFault_of_parse⟩

/-- A numeral stands where a value is required: the fault is the fourth token,
and four tokens are consumed. -/
theorem parse_reports_number_for_value :
    (∃ k, ReportsFault .labels (tokenize "\x7ba=1\x7d") k
        (.unexpected (.token .string) .number ⟨1, 4⟩) ∧
      (Tokenizer.ofString "\x7ba=1\x7d").skip 4 = (Tokenizer.ofString "\x7ba=1\x7d").skip k) ∧
    (∃ k, ReportsFault .matchers (tokenize "\x7ba=1\x7d") k
        (.unexpected (.token .string) .number ⟨1, 4⟩) ∧
      (Tokenizer.ofString "\x7ba=1\x7d").skip 4 = (Tokenizer.ofString "\x7ba=1\x7d").skip k) := by
  have failed (d : Dialect) : read d (.ofString "\x7ba=1\x7d") =
      (.error (.unexpected (.token .string) .number ⟨1, 4⟩),
        (Tokenizer.ofString "\x7ba=1\x7d").skip 4) := by
    have list : conditions d ((Tokenizer.ofString "\x7ba=1\x7d").skip 1) =
        (.error (.unexpected (.token .string) .number ⟨1, 4⟩),
          (Tokenizer.ofString "\x7ba=1\x7d").skip 4) := by
      rw [conditions_apply]
      cases d <;> rfl
    exact read_of_conditions rfl Token.Kind.noConfusion list
  have refused (d : Dialect) : parse d "\x7ba=1\x7d" =
      .error (.unexpected (.token .string) .number ⟨1, 4⟩) := by
    rw [parse, readAll_of_read (failed d)]
  obtain ⟨labels, matchers⟩ := parse_reports_first_fault "\x7ba=1\x7d"
  constructor
  · obtain ⟨k, reports, consumed⟩ := labels _ (labelSet_parse_eq_error_iff.mpr (refused .labels))
    exact ⟨k, reports, consumed _ _ (labelSet_read_eq_error_iff.mpr (failed .labels))⟩
  · obtain ⟨k, reports, consumed⟩ := matchers _ (matcher_parse_eq_error_iff.mpr (refused .matchers))
    exact ⟨k, reports, consumed _ _ (matcher_read_eq_error_iff.mpr (failed .matchers))⟩

end Selector

end MetricLabels
