import MetricLabels.Proofs.Selector.Words
import MetricLabels.Proofs.Token.Stream
import MetricLabels.Selector.Parse

/-!
# Reading takes the words of the grammar

Each reader succeeds on the words of its part of the grammar and on nothing
else, takes exactly the word, and gives the conditions that the word spells out.
The main statement is `read_eq_ok_iff`.

A reader looks at a token only to consume the same token later, so each is first
brought into a form without that (`conditions_apply`, `braces_apply`).  Two
looks remain: at the token behind a list of conditions, and at the token behind
a name that stands alone.
-/

namespace MetricLabels

/-! ## Readers in sequence -/

namespace TokenReader

variable {α β : Type} {t u : Tokenizer}

/-- Readers in sequence succeed if both do, one behind the other. -/
theorem bind_eq_ok_iff {x : TokenReader α} {f : α → TokenReader β} {b : β} :
    (x >>= f) t = (.ok b, u) ↔ ∃ a r, x t = (.ok a, r) ∧ f a r = (.ok b, u) := by
  rw [bind_apply]
  constructor
  · intro h
    split at h
    next a r ran => exact ⟨a, r, ran, h⟩
    next => cases h
  · rintro ⟨a, r, ran, h⟩
    rw [ran]
    exact h

/-- They fail with the error of the first that fails. -/
theorem bind_eq_error_iff {x : TokenReader α} {f : α → TokenReader β} {e : ParseError} :
    (x >>= f) t = (.error e, u) ↔
      x t = (.error e, u) ∨ ∃ a r, x t = (.ok a, r) ∧ f a r = (.error e, u) := by
  rw [bind_apply]
  constructor
  · intro h
    split at h
    next a r ran => exact .inr ⟨a, r, ran, h⟩
    next e' r failed =>
      cases h
      exact .inl failed
  · rintro (failed | ⟨a, r, ran, h⟩)
    · rw [failed]
    · rw [ran]
      exact h

/-- A last step that only forms the result. -/
theorem bind_pure_eq_ok_iff {x : TokenReader α} {f : α → β} {b : β} :
    (x >>= fun a => pure (f a)) t = (.ok b, u) ↔ ∃ a, x t = (.ok a, u) ∧ f a = b := by
  rw [bind_eq_ok_iff]
  constructor
  · rintro ⟨a, r, ran, done⟩
    cases done
    exact ⟨a, ran, rfl⟩
  · rintro ⟨a, ran, rfl⟩
    exact ⟨a, u, ran, rfl⟩

theorem bind_pure_eq_error_iff {x : TokenReader α} {f : α → β} {e : ParseError} :
    (x >>= fun a => pure (f a)) t = (.error e, u) ↔ x t = (.error e, u) := by
  rw [bind_eq_error_iff]
  constructor
  · rintro (failed | ⟨_, _, _, failed⟩)
    · exact failed
    · cases failed
  · exact .inl

theorem map_eq_ok_iff {x : Except ParseError α} {f : α → β} {b : β} :
    x.map f = .ok b ↔ ∃ a, x = .ok a ∧ f a = b := by
  cases x with
  | ok a => simp [Except.map]
  | error e => simp [Except.map]

theorem map_eq_error_iff {x : Except ParseError α} {f : α → β} {e : ParseError} :
    x.map f = .error e ↔ x = .error e := by
  cases x with
  | ok a => simp [Except.map]
  | error e => simp [Except.map]

theorem pure_apply (a : α) (t : Tokenizer) : (pure a : TokenReader α) t = (.ok a, t) := rfl

/-- The token that is looked at is the next to come. -/
theorem peek_apply (t : Tokenizer) : peek t = (.ok t.next.1, t.peek.2) := by
  rw [← Tokenizer.peek_fst]
  rfl

theorem next_apply (t : Tokenizer) : next t = (.ok t.next.1, t.next.2) := rfl

theorem expect_apply (kind : Token.Kind) (t : Tokenizer) :
    expect kind t =
      if t.next.1.kind = kind then (.ok t.next.1, t.next.2)
      else (.error (.unexpected (.token kind) t.next.1.kind t.next.1.pos), t.next.2) := rfl

@[simp] theorem expect_peek (kind : Token.Kind) (t : Tokenizer) :
    expect kind t.peek.2 = expect kind t := Tokenizer.expect_peek t kind

/-- A token that is required is taken if it is of the kind. -/
theorem expect_eq_ok_iff {kind : Token.Kind} {token : Token} :
    expect kind t = (.ok token, u) ↔ token.kind = kind ∧ t.Takes [token] u := by
  rw [expect_apply]
  constructor
  · intro h
    split at h
    next same =>
      cases h
      exact ⟨same, .next (.refl _)⟩
    next => cases h
  · rintro ⟨same, taken⟩
    obtain ⟨rfl, rest⟩ := Tokenizer.Takes.cons_iff.mp taken
    cases rest
    rw [if_pos same]

end TokenReader

namespace Selector

open TokenReader Tokenizer

variable {d : Dialect} {t u : Tokenizer}

/-! ## Conditions -/

/-- What a dialect requires between the name and the value of a condition. -/
def Dialect.wanted : Dialect → Expected
  | .labels => .token .eq
  | .matchers => .operator

/-- The operator is the next token, if the dialect has it. -/
theorem operator_apply (d : Dialect) (t : Tokenizer) :
    operator d t =
      match d.operator? t.next.1.kind with
      | some op => (.ok op, t.next.2)
      | none => (.error (.unexpected d.wanted t.next.1.kind t.next.1.pos), t.next.2) := by
  cases d with
  | labels =>
      rw [operator, bind_apply, expect_apply]
      cases t.next.1.kind <;> rfl
  | matchers =>
      rw [operator, bind_apply, next_apply]
      show (match Operator.ofKind? t.next.1.kind with
        | some op => (pure op : TokenReader Operator)
        | none => throw (ParseError.unexpected .operator t.next.1.kind t.next.1.pos)) t.next.2 = _
      cases t.next.1.kind <;> rfl

theorem operator_eq_ok_iff {op : Operator} :
    operator d t = (.ok op, u) ↔
      ∃ sign, d.operator? sign.kind = some op ∧ t.Takes [sign] u := by
  rw [operator_apply]
  constructor
  · intro h
    split at h
    next found =>
      cases h
      exact ⟨_, found, .next (.refl _)⟩
    next => cases h
  · rintro ⟨sign, found, taken⟩
    obtain ⟨rfl, rest⟩ := Takes.cons_iff.mp taken
    cases rest
    rw [found]

/-- Having looked at the next token makes no difference. -/
@[simp] theorem condition_peek (d : Dialect) (t : Tokenizer) :
    condition d t.peek.2 = condition d t := by
  rw [condition, bind_apply, bind_apply, TokenReader.expect_peek]

/-- A condition is read off its word, and off nothing else. -/
theorem condition_eq_ok_iff {c : Condition} :
    condition d t = (.ok c, u) ↔ ∃ w, ConditionWord d c w ∧ t.Takes w u := by
  rw [condition, bind_eq_ok_iff]
  constructor
  · rintro ⟨name, t₁, named, rest⟩
    obtain ⟨op, t₂, operated, rest⟩ := bind_eq_ok_iff.mp rest
    obtain ⟨value, t₃, valued, rest⟩ := bind_eq_ok_iff.mp rest
    obtain ⟨isName, first⟩ := expect_eq_ok_iff.mp named
    obtain ⟨sign, isSign, second⟩ := operator_eq_ok_iff.mp operated
    obtain ⟨isValue, third⟩ := expect_eq_ok_iff.mp valued
    cases rest
    exact ⟨_, .intro isName isSign isValue, first.trans (second.trans third)⟩
  · rintro ⟨w, ⟨isName, isSign, isValue⟩, taken⟩
    obtain ⟨t₁, first, taken⟩ := Takes.append_iff (v := [_]).mp taken
    obtain ⟨t₂, second, third⟩ := Takes.append_iff (v := [_]).mp taken
    refine ⟨_, t₁, expect_eq_ok_iff.mpr ⟨isName, first⟩, bind_eq_ok_iff.mpr ?_⟩
    refine ⟨_, t₂, operator_eq_ok_iff.mpr ⟨_, isSign, second⟩, bind_eq_ok_iff.mpr ?_⟩
    exact ⟨_, u, expect_eq_ok_iff.mpr ⟨isValue, third⟩, rfl⟩

/-! ## Lists of conditions -/

theorem another_apply (t : Tokenizer) :
    another t =
      if t.next.1.kind = .comma then (t.next.2.next.1.kind != .rbrace, t.next.2.peek.2)
      else (false, t.peek.2) := by
  simp [another]

/-- One step of the reader of lists. -/
theorem conditions_unfold (d : Dialect) (t : Tokenizer) :
    conditions d t =
      match condition d t with
      | (.error e, u) => (.error e, u)
      | (.ok c, u) =>
          match another u with
          | (false, v) => (.ok [c], v)
          | (true, v) => ((conditions d v).1.map (c :: ·), (conditions d v).2) := by
  rw [conditions]
  split
  next failed => conv_rhs => rw [failed]
  next done =>
    conv_rhs => rw [done]
    split
    next last => simp only [last]
    next more => simp only [more]

@[simp] theorem conditions_peek (d : Dialect) (t : Tokenizer) :
    conditions d t.peek.2 = conditions d t := by
  rw [conditions_unfold, conditions_unfold d t, condition_peek]

/-- The reader of lists, told by what comes next and not by what was looked at. -/
theorem conditions_apply (d : Dialect) (t : Tokenizer) :
    conditions d t =
      match condition d t with
      | (.error e, u) => (.error e, u)
      | (.ok c, u) =>
          if u.next.1.kind = .comma then
            if u.next.2.next.1.kind = .rbrace then (.ok [c], u.next.2.peek.2)
            else ((conditions d u.next.2).1.map (c :: ·), (conditions d u.next.2).2)
          else (.ok [c], u.peek.2) := by
  rw [conditions_unfold]
  split
  next => rfl
  next c u _ =>
    rw [another_apply]
    by_cases separated : u.next.1.kind = .comma
    · rw [if_pos separated, if_pos separated]
      by_cases closed : u.next.2.next.1.kind = .rbrace
      · rw [if_pos closed, closed]
        rfl
      · rw [if_neg closed, bne_iff_ne.mpr closed]
        simp only [conditions_peek]
    · rw [if_neg separated, if_neg separated]

/-- A list of conditions ends at `u`, and its reader stops at `v`.  It has looked
at the token behind the list, or behind a comma there. -/
def ListEnds (u v : Tokenizer) : Prop :=
  (u.next.1.kind ≠ .comma ∧ v = u.peek.2) ∨
    (u.next.1.kind = .comma ∧ u.next.2.next.1.kind = .rbrace ∧ v = u.next.2.peek.2)

/-- A list that is read is a word, with its end behind it. -/
theorem listWord_of_conditions {cs : List Condition} {v : Tokenizer}
    (h : conditions d t = (.ok cs, v)) :
    ∃ w u, ListWord d cs w ∧ t.Takes w u ∧ ListEnds u v := by
  -- A condition and a comma leave fewer tokens.
  induction n : t.remaining using Nat.strong_induction_on generalizing t cs with
  | h n ih =>
    subst n
    rw [conditions_apply] at h
    split at h
    next => cases h
    next c u first =>
      obtain ⟨w, word, taken⟩ := condition_eq_ok_iff.mp first
      by_cases separated : u.next.1.kind = .comma
      · rw [if_pos separated] at h
        by_cases closed : u.next.2.next.1.kind = .rbrace
        · rw [if_pos closed] at h
          cases h
          exact ⟨w, u, .last word, taken, .inr ⟨separated, closed, rfl⟩⟩
        · rw [if_neg closed] at h
          rcases more : conditions d u.next.2 with ⟨_ | cs', v'⟩
          · rw [more] at h
            cases h
          · rw [more] at h
            cases h
            have fewer := Nat.lt_of_le_of_lt u.remaining_next_le (remaining_lt_of_condition first)
            obtain ⟨w', u', word', taken', ends⟩ := ih _ fewer more rfl
            exact ⟨_, u', .more word separated word', taken.trans (.next taken'), ends⟩
      · rw [if_neg separated] at h
        cases h
        exact ⟨w, u, .last word, taken, .inl ⟨separated, rfl⟩⟩

/-- A list starts with a name. -/
theorem ListWord.next_ne_rbrace {cs : List Condition} {w : List Token} (word : ListWord d cs w)
    (taken : t.Takes w u) : t.next.1.kind ≠ .rbrace := by
  obtain ⟨name, rest, rfl, named⟩ := word.exists_cons
  rw [(Takes.cons_iff.mp taken).1, named]
  exact Token.Kind.noConfusion

/-- A word of a list is read to its end. -/
theorem conditions_of_listWord {cs : List Condition} {w : List Token} {v : Tokenizer}
    (word : ListWord d cs w) (taken : t.Takes w u) (ends : ListEnds u v) :
    conditions d t = (.ok cs, v) := by
  induction word generalizing t with
  | last first =>
      rw [conditions_apply, condition_eq_ok_iff.mpr ⟨_, first, taken⟩]
      rcases ends with ⟨other, rfl⟩ | ⟨separated, closed, rfl⟩
      · simp only [other, if_false]
      · simp only [separated, closed, if_true]
  | more first separated word ih =>
      obtain ⟨r, taken₁, rest⟩ := Takes.append_iff.mp taken
      obtain ⟨rfl, taken₂⟩ := Takes.cons_iff.mp rest
      have continues := word.next_ne_rbrace taken₂
      rw [conditions_apply, condition_eq_ok_iff.mpr ⟨_, first, taken₁⟩]
      simp only [separated, continues, if_true, if_false, ih taken₂]
      rfl

/-! ## Braces -/

/-- The reader of braces, told by what comes next and not by what was looked at. -/
theorem braces_apply (d : Dialect) (t : Tokenizer) :
    braces d t =
      match expect .lbrace t with
      | (.ok _, u) =>
          if u.next.1.kind = .rbrace then (.ok [], u.next.2)
          else
            match conditions d u with
            | (.ok cs, v) =>
                match expect .rbrace v with
                | (.ok _, r) => (.ok cs, r)
                | (.error e, r) => (.error e, r)
            | (.error e, v) => (.error e, v)
      | (.error e, u) => (.error e, u) := by
  rw [braces, bind_apply]
  split
  next left u opened =>
    rw [opened, bind_apply, peek_apply]
    simp only
    by_cases closed : u.next.1.kind = .rbrace
    · rw [if_pos closed, if_pos closed, bind_apply, pure_apply]
      simp only
      rw [bind_apply, TokenReader.expect_peek, expect_apply, if_pos closed]
      rfl
    · rw [if_neg closed, if_neg closed, bind_apply]
      have list : (ExceptT.mk (conditions d) : TokenReader _) u.peek.2 = conditions d u :=
        conditions_peek d u
      rw [list]
      split
      next cs v read =>
        rw [read, bind_apply]
        simp only
        rcases TokenReader.expect .rbrace v with ⟨_ | right, r⟩
        · rfl
        · rfl
      next e v failed => rw [failed]
  next e u failed => rw [failed]

/-- A list in braces is read with them if its reader stops before the closing one. -/
theorem braces_of_listWord {cs : List Condition} {w : List Token} {right : Token} {v r : Tokenizer}
    (opens : t.next.1.kind = .lbrace) (word : ListWord d cs w) (taken : t.next.2.Takes w v)
    (ends : ListEnds v r) (closed : expect .rbrace r = (.ok right, u)) :
    braces d t = (.ok cs, u) := by
  rw [braces_apply, expect_apply, if_pos opens]
  simp only [word.next_ne_rbrace taken, if_false, conditions_of_listWord word taken ends, closed]

/-- Braces are read off their word, and off nothing else. -/
theorem braces_eq_ok_iff {cs : List Condition} :
    braces d t = (.ok cs, u) ↔ ∃ w, BracesWord d cs w ∧ t.Takes w u := by
  constructor
  · intro h
    rw [braces_apply] at h
    split at h
    next left t₁ opened =>
      obtain ⟨opens, taken₁⟩ := expect_eq_ok_iff.mp opened
      by_cases closed : t₁.next.1.kind = .rbrace
      · rw [if_pos closed] at h
        cases h
        exact ⟨_, .empty opens closed, taken₁.trans (.next (.refl _))⟩
      · rw [if_neg closed] at h
        split at h
        next cs' t₂ list =>
          split at h
          next right t₃ closed' =>
            cases h
            obtain ⟨w, v, word, taken₂, ends⟩ := listWord_of_conditions list
            obtain ⟨closes, taken₃⟩ := expect_eq_ok_iff.mp closed'
            rcases ends with ⟨_, rfl⟩ | ⟨separated, _, rfl⟩
            · have taken₃ : v.Takes [right] u := by simpa using taken₃
              exact ⟨_, .list opens word closes, taken₁.trans (taken₂.trans taken₃)⟩
            · have taken₃ : v.next.2.Takes [right] u := by simpa using taken₃
              exact ⟨_, .trailing opens word separated closes,
                taken₁.trans (taken₂.trans (.next taken₃))⟩
          next => cases h
        next => cases h
    next => cases h
  · rintro ⟨w, word, taken⟩
    cases word with
    | empty opens closes =>
        obtain ⟨rfl, taken₁⟩ := Takes.cons_iff.mp taken
        obtain ⟨rfl, taken₂⟩ := Takes.cons_iff.mp taken₁
        obtain rfl := Takes.nil_iff.mp taken₂
        rw [braces_apply, expect_apply, if_pos opens]
        simp only [closes, if_true]
    | list opens word closes =>
        obtain ⟨rfl, rest⟩ := Takes.cons_iff.mp taken
        obtain ⟨v, taken₁, taken₂⟩ := Takes.append_iff.mp rest
        have ends : ListEnds v v.peek.2 := by
          refine .inl ⟨?_, rfl⟩
          rw [(Takes.cons_iff.mp taken₂).1, closes]
          exact Token.Kind.noConfusion
        exact braces_of_listWord opens word taken₁ ends
          ((TokenReader.expect_peek _ _).trans (expect_eq_ok_iff.mpr ⟨closes, taken₂⟩))
    | trailing opens word separated closes =>
        obtain ⟨rfl, rest⟩ := Takes.cons_iff.mp taken
        obtain ⟨v, taken₁, rest⟩ := Takes.append_iff.mp rest
        obtain ⟨rfl, taken₂⟩ := Takes.cons_iff.mp rest
        have ends : ListEnds v v.next.2.peek.2 := by
          refine .inr ⟨separated, ?_, rfl⟩
          rw [(Takes.cons_iff.mp taken₂).1, closes]
        exact braces_of_listWord opens word taken₁ ends
          ((TokenReader.expect_peek _ _).trans (expect_eq_ok_iff.mpr ⟨closes, taken₂⟩))

@[simp] theorem braces_peek (d : Dialect) (t : Tokenizer) :
    braces d t.peek.2 = braces d t := by
  rw [braces, bind_apply, bind_apply, TokenReader.expect_peek]

/-! ## Selectors -/

/-- The reader of selectors, told by what comes next and not by what was looked
at.  One look remains, behind a name that stands alone. -/
theorem read_apply (d : Dialect) (t : Tokenizer) :
    read d t =
      if t.next.1.kind = .ident then
        if t.next.2.next.1.kind = .lbrace then
          match braces d t.next.2 with
          | (.ok cs, u) => (.ok (metric t.next.1.text :: cs), u)
          | (.error e, u) => (.error e, u)
        else (.ok [metric t.next.1.text], t.next.2.peek.2)
      else braces d t := by
  rw [read, bind_apply, peek_apply]
  simp only
  by_cases named : t.next.1.kind = .ident
  · rw [if_pos named, if_pos named, bind_apply, next_apply, next_peek]
    simp only
    rw [bind_apply, peek_apply]
    simp only
    by_cases opened : t.next.2.next.1.kind = .lbrace
    · rw [if_pos opened, if_pos opened, bind_apply, braces_peek]
      rcases braces d t.next.2 with ⟨_ | cs, u⟩
      · rfl
      · rfl
    · rw [if_neg opened, if_neg opened]
      rfl
  · rw [if_neg named, if_neg named, braces_peek]

/-- A selector ends at `u`, and its reader stops at `v`.  It has looked at the
token behind a name that stands alone. -/
def WordEnds (w : List Token) (u v : Tokenizer) : Prop :=
  (w.length = 1 ∧ u.next.1.kind ≠ .lbrace ∧ v = u.peek.2) ∨ (w.length ≠ 1 ∧ v = u)

/-- A selector is read off its word, and off nothing else. -/
theorem read_eq_ok_iff {cs : List Condition} {v : Tokenizer} :
    read d t = (.ok cs, v) ↔ ∃ w u, Word d cs w ∧ t.Takes w u ∧ WordEnds w u v := by
  rw [read_apply]
  constructor
  · intro h
    by_cases named : t.next.1.kind = .ident
    · rw [if_pos named] at h
      by_cases opened : t.next.2.next.1.kind = .lbrace
      · rw [if_pos opened] at h
        split at h
        next cs' u read =>
          cases h
          obtain ⟨w, word, taken⟩ := braces_eq_ok_iff.mp read
          have long : (t.next.1 :: w).length ≠ 1 := by
            obtain ⟨left, rest, rfl, _, _⟩ := word.exists_cons
            simp
          exact ⟨_, _, .both named word, .next taken, .inr ⟨long, rfl⟩⟩
        next => cases h
      · rw [if_neg opened] at h
        cases h
        exact ⟨_, _, .name named, .next (.refl _), .inl ⟨rfl, opened, rfl⟩⟩
    · rw [if_neg named] at h
      obtain ⟨w, word, taken⟩ := braces_eq_ok_iff.mp h
      exact ⟨w, v, .braces word, taken, .inr ⟨word.length_ne_one, rfl⟩⟩
  · rintro ⟨w, u, word, taken, ends⟩
    cases word with
    | name named =>
        obtain ⟨rfl, rest⟩ := Takes.cons_iff.mp taken
        obtain rfl := Takes.nil_iff.mp rest
        rcases ends with ⟨_, single, rfl⟩ | ⟨long, _⟩
        · rw [if_pos named, if_neg single]
        · exact absurd rfl long
    | braces word =>
        obtain ⟨left, rest, rfl, opens, _⟩ := word.exists_cons
        have notName : t.next.1.kind ≠ .ident := by
          rw [(Takes.cons_iff.mp taken).1, opens]
          exact Token.Kind.noConfusion
        rcases ends with ⟨single, _⟩ | ⟨_, rfl⟩
        · exact absurd single word.length_ne_one
        · rw [if_neg notName]
          exact braces_eq_ok_iff.mpr ⟨_, word, taken⟩
    | both named word =>
        obtain ⟨rfl, taken'⟩ := Takes.cons_iff.mp taken
        obtain ⟨left, rest, rfl, opens, _⟩ := word.exists_cons
        have opened : t.next.2.next.1.kind = .lbrace := by
          rw [(Takes.cons_iff.mp taken').1, opens]
        rcases ends with ⟨single, _⟩ | ⟨_, rfl⟩
        · simp at single
        · rw [if_pos named, if_pos opened, braces_eq_ok_iff.mpr ⟨_, word, taken'⟩]

/-- A text is a selector from end to end if the end comes next behind a word. -/
theorem parse_eq_ok_iff {text : String} {cs : List Condition} :
    parse d text = .ok cs ↔
      ∃ w u, Word d cs w ∧ (ofString text).Takes w u ∧ u.next.1.kind = .eof := by
  constructor
  · intro parsed
    obtain ⟨v, whole⟩ : ∃ v, readAll d (.ofString text) = (.ok cs, v) :=
      ⟨_, Prod.ext parsed rfl⟩
    obtain ⟨cs, v, read, rest⟩ := bind_eq_ok_iff.mp whole
    obtain ⟨_, _, ended, done⟩ := bind_eq_ok_iff.mp rest
    cases done
    obtain ⟨w, u, word, taken, ends⟩ := read_eq_ok_iff.mp read
    refine ⟨w, u, word, taken, ?_⟩
    obtain ⟨eof, behind⟩ := expect_eq_ok_iff.mp ended
    rcases ends with ⟨_, _, rfl⟩ | ⟨_, rfl⟩
    · rw [← (Takes.cons_iff.mp behind).1, next_peek] at eof
      exact eof
    · rw [← (Takes.cons_iff.mp behind).1] at eof
      exact eof
  · rintro ⟨w, u, word, taken, eof⟩
    -- Behind a name that stands alone, the reader has looked at the end already.
    obtain ⟨v, read, ended⟩ : ∃ v, read d (.ofString text) = (.ok cs, v) ∧ v.next = u.next := by
      by_cases one : w.length = 1
      · have single : u.next.1.kind ≠ .lbrace := by
          rw [eof]
          exact Token.Kind.noConfusion
        exact ⟨_, read_eq_ok_iff.mpr ⟨w, u, word, taken, .inl ⟨one, single, rfl⟩⟩, next_peek u⟩
      · exact ⟨_, read_eq_ok_iff.mpr ⟨w, u, word, taken, .inr ⟨one, rfl⟩⟩, rfl⟩
    have whole : readAll d (.ofString text) = (.ok cs, u.next.2) := by
      refine bind_eq_ok_iff.mpr ⟨cs, v, read, bind_eq_ok_iff.mpr ⟨u.next.1, u.next.2, ?_, rfl⟩⟩
      rw [expect_apply, ended, if_pos eof]
    rw [parse, whole]

/-! ## What is read is a word, and what is left is the rest -/

/-- The same, told by the tokens to come.  What was looked at is among them. -/
theorem read_eq_ok_iff_stream {cs : List Condition} {r : Stream' Token} :
    (∃ v, read d t = (.ok cs, v) ∧ v.stream = r) ↔
      ∃ w, Word d cs w ∧ t.stream = w ++ₛ r ∧ (w.length = 1 → r.head.kind ≠ .lbrace) := by
  constructor
  · rintro ⟨v, h, rfl⟩
    obtain ⟨w, u, word, taken, ends⟩ := read_eq_ok_iff.mp h
    rcases ends with ⟨_, single, rfl⟩ | ⟨long, rfl⟩
    · rw [stream_peek]
      exact ⟨w, word, taken.stream_eq, fun _ => single⟩
    · exact ⟨w, word, taken.stream_eq, fun one => absurd one long⟩
  · rintro ⟨w, word, cut, single⟩
    obtain ⟨taken, rfl⟩ := takes_of_stream_eq cut
    by_cases one : w.length = 1
    · exact ⟨_, read_eq_ok_iff.mpr ⟨w, _, word, taken, .inl ⟨one, single one, rfl⟩⟩,
        stream_peek _⟩
    · exact ⟨_, read_eq_ok_iff.mpr ⟨w, _, word, taken, .inr ⟨one, rfl⟩⟩, rfl⟩

/-! ## Label sets and matchers -/

section

variable {s : LabelSet} {m : Matcher} {text : String} {e : ParseError}

/-- A label set is read as the conditions of a selector, inserted one by one. -/
theorem labelSet_read_eq_ok_iff : LabelSet.read t = (.ok s, u) ↔
    ∃ cs, read .labels t = (.ok cs, u) ∧ LabelSet.ofConditions cs = s := bind_pure_eq_ok_iff

theorem labelSet_read_eq_error_iff :
    LabelSet.read t = (.error e, u) ↔ read .labels t = (.error e, u) := bind_pure_eq_error_iff

theorem labelSet_parse_eq_ok_iff : LabelSet.parse text = .ok s ↔
    ∃ cs, parse .labels text = .ok cs ∧ LabelSet.ofConditions cs = s := map_eq_ok_iff

theorem labelSet_parse_eq_error_iff :
    LabelSet.parse text = .error e ↔ parse .labels text = .error e := map_eq_error_iff

/-- A matcher is read as the conditions of a selector. -/
theorem matcher_read_eq_ok_iff :
    Matcher.read t = (.ok m, u) ↔ read .matchers t = (.ok m.conditions, u) := by
  refine bind_pure_eq_ok_iff.trans ⟨?_, fun h => ⟨_, h, rfl⟩⟩
  rintro ⟨cs, h, rfl⟩
  exact h

theorem matcher_read_eq_error_iff :
    Matcher.read t = (.error e, u) ↔ read .matchers t = (.error e, u) := bind_pure_eq_error_iff

theorem matcher_parse_eq_ok_iff :
    Matcher.parse text = .ok m ↔ parse .matchers text = .ok m.conditions := by
  refine map_eq_ok_iff.trans ⟨?_, fun h => ⟨_, h, rfl⟩⟩
  rintro ⟨cs, h, rfl⟩
  exact h

theorem matcher_parse_eq_error_iff :
    Matcher.parse text = .error e ↔ parse .matchers text = .error e := map_eq_error_iff

end

/-- From any tokenizer, a label set is read exactly if a word of the grammar
comes next, with no opening brace behind it if it is a name that stands alone.
The tokens behind the word are the next to come.  The set has the conditions of
the word inserted from left to right.  A matcher is read in the same way and has
the conditions themselves. -/
theorem read_accepts_words (t : Tokenizer) :
    (∀ (s : LabelSet) (r : Stream' Token),
      (∃ u, LabelSet.read t = (.ok s, u) ∧ u.stream = r) ↔
        ∃ cs w, Word .labels cs w ∧ t.stream = w ++ₛ r ∧
          (w.length = 1 → r.head.kind ≠ .lbrace) ∧
          s = LabelSet.ofList (cs.map fun c => (c.name, c.value))) ∧
    (∀ (m : Matcher) (r : Stream' Token),
      (∃ u, Matcher.read t = (.ok m, u) ∧ u.stream = r) ↔
        ∃ w, Word .matchers m.conditions w ∧ t.stream = w ++ₛ r ∧
          (w.length = 1 → r.head.kind ≠ .lbrace)) := by
  constructor
  · intro s r
    constructor
    · rintro ⟨u, h, left⟩
      obtain ⟨cs, read, rfl⟩ := labelSet_read_eq_ok_iff.mp h
      obtain ⟨w, word, cut, single⟩ := read_eq_ok_iff_stream.mp ⟨u, read, left⟩
      exact ⟨cs, w, word, cut, single, rfl⟩
    · rintro ⟨cs, w, word, cut, single, rfl⟩
      obtain ⟨u, read, left⟩ := read_eq_ok_iff_stream.mpr ⟨w, word, cut, single⟩
      exact ⟨u, labelSet_read_eq_ok_iff.mpr ⟨cs, read, rfl⟩, left⟩
  · intro m r
    rw [← read_eq_ok_iff_stream]
    simp only [matcher_read_eq_ok_iff]

end Selector

end MetricLabels
