import MetricLabels.Proofs.Selector.Reading
import MetricLabels.Proofs.Token.Lookahead
import MetricLabels.Proofs.Token.Spacing

/-!
# Layout does not matter between tokens

A reader of selectors sees the kinds and the texts of tokens.  It copies the
place of a token into an error and does nothing else with it.  So two tokenizers
that differ in places only (`Alike`) are read in the same way (`Parallel`), which
is shown reader by reader and is closed under sequence (`Parallels.bind`).

Blanks before a token change places and nothing else, so the value of a text does
not change with them, nor does what an error expected and found.  The main
statement is `blanks_before_token`.
-/

namespace MetricLabels

/-- What a token is, apart from its place. -/
def Token.content (token : Token) : Token.Kind × String := (token.kind, token.text)

/-- The same value, or errors that differ in the place only. -/
inductive SameAnswer {α : Type} : Except ParseError α → Except ParseError α → Prop where
  | value (a : α) : SameAnswer (.ok a) (.ok a)
  | fault (x : Expected) (found : Token.Kind) (p q : Position) :
      SameAnswer (.error (.unexpected x found p)) (.error (.unexpected x found q))

/-- Whatever is made of equal values is equal. -/
theorem SameAnswer.map {α β : Type} {x y : Except ParseError α} (same : SameAnswer x y)
    (f : α → β) : SameAnswer (x.map f) (y.map f) := by
  cases same with
  | value a => exact .value (f a)
  | fault x found p q => exact .fault x found p q

namespace Selector

open TokenReader Tokenizer

variable {α β : Type} {t u : Tokenizer} {d : Dialect}

/-! ## Tokens that differ in places -/

/-- The tokens to come differ in their places only. -/
def Alike (t u : Tokenizer) : Prop := t.stream.map Token.content = u.stream.map Token.content

/-- The next tokens differ in their places only, and so do those behind them. -/
theorem Alike.cons_iff : Alike t u ↔
    t.next.1.content = u.next.1.content ∧ Alike t.next.2 u.next.2 := by
  rw [Alike, stream_eq_cons t, stream_eq_cons u, Stream'.map_cons, Stream'.map_cons]
  constructor
  · exact fun same => Stream'.cons_injective2 same
  · rintro ⟨first, rest⟩
    rw [first, rest]

theorem Alike.peek (alike : Alike t u) : Alike t.peek.2 u.peek.2 := by
  rwa [Alike, stream_peek, stream_peek]

theorem Alike.next (alike : Alike t u) : Alike t.next.2 u.next.2 := (Alike.cons_iff.mp alike).2

theorem Alike.kind_eq (alike : Alike t u) : t.next.1.kind = u.next.1.kind :=
  congrArg Prod.fst (Alike.cons_iff.mp alike).1

/-- Texts whose tokens differ in places only. -/
theorem Alike.of_tokenize {text text' : String}
    (same : (tokenize text).map Token.content = (tokenize text').map Token.content) :
    Alike (.ofString text) (.ofString text') := by
  rw [Alike, stream_ofString, stream_ofString, endless, endless, Stream'.map_append_stream,
    Stream'.map_append_stream, same, Stream'.map_const, Stream'.map_const]
  rfl

/-! ## Readers side by side -/

/-- What readers make of tokens that differ in places only: values that `R`
relates, with such tokens behind them, or errors that differ in the place only. -/
inductive Parallel (R : α → α → Prop) :
    Except ParseError α × Tokenizer → Except ParseError α × Tokenizer → Prop where
  | value {a b : α} {t u : Tokenizer} : R a b → Alike t u → Parallel R (.ok a, t) (.ok b, u)
  | fault {x : Expected} {found : Token.Kind} {p q : Position} {t u : Tokenizer} :
      Parallel R (.error (.unexpected x found p), t) (.error (.unexpected x found q), u)

/-- The readers go side by side through all such tokens. -/
def Parallels (R : α → α → Prop) (x y : TokenReader α) : Prop :=
  ∀ ⦃t u⦄, Alike t u → Parallel R (x t) (y u)

/-- The tokens have the same kind and the same text. -/
def SameContent (a b : Token) : Prop := a.content = b.content

theorem SameContent.kind_eq {a b : Token} (same : SameContent a b) : a.kind = b.kind :=
  congrArg Prod.fst same

theorem SameContent.text_eq {a b : Token} (same : SameContent a b) : a.text = b.text :=
  congrArg Prod.snd same

/-- Readers side by side may be followed by readers that go on side by side. -/
theorem Parallels.bind {R : α → α → Prop} {S : β → β → Prop} {x y : TokenReader α}
    {f g : α → TokenReader β} (first : Parallels R x y)
    (rest : ∀ a b, R a b → Parallels S (f a) (g b)) : Parallels S (x >>= f) (y >>= g) := by
  intro t u alike
  have parallel := first alike
  rw [bind_apply, bind_apply]
  generalize x t = r, y u = r' at parallel
  cases parallel with
  | value related alike => exact rest _ _ related alike
  | fault => exact .fault

theorem parallels_pure {R : α → α → Prop} {a b : α} (related : R a b) :
    Parallels R (pure a) (pure b) := fun _ _ alike => .value related alike

theorem parallels_peek : Parallels SameContent peek peek := by
  intro t u alike
  rw [peek_apply, peek_apply]
  exact .value (Alike.cons_iff.mp alike).1 alike.peek

theorem parallels_next : Parallels SameContent next next :=
  fun _ _ alike => .value (Alike.cons_iff.mp alike).1 alike.next

/-- A required token is told by its kind. -/
theorem parallels_expect (kind : Token.Kind) :
    Parallels SameContent (expect kind) (expect kind) := by
  intro t u alike
  rw [expect_apply, expect_apply, ← alike.kind_eq]
  split
  next => exact .value (Alike.cons_iff.mp alike).1 alike.next
  next => exact .fault

/-- So is an operator. -/
theorem parallels_operator (d : Dialect) : Parallels Eq (operator d) (operator d) := by
  intro t u alike
  rw [operator_apply, operator_apply, ← alike.kind_eq]
  split
  next => exact .value rfl alike.next
  next => exact .fault

/-- A condition has the texts of two tokens, and no place. -/
theorem parallels_condition (d : Dialect) : Parallels Eq (condition d) (condition d) := by
  refine (parallels_expect .ident).bind fun name name' sameName => ?_
  refine (parallels_operator d).bind fun op op' sameOp => ?_
  refine (parallels_expect .string).bind fun value value' sameValue => ?_
  obtain rfl := sameOp
  rw [sameName.text_eq, sameValue.text_eq]
  exact parallels_pure rfl

/-- A list goes side by side, by induction on the tokens that are left. -/
theorem parallel_conditions (d : Dialect) (alike : Alike t u) :
    Parallel Eq (conditions d t) (conditions d u) := by
  -- A condition and a comma leave fewer tokens.
  induction n : t.remaining using Nat.strong_induction_on generalizing t u with
  | h n ih =>
    subst n
    have first := parallels_condition d alike
    rw [conditions_apply, conditions_apply]
    generalize read : condition d t = r, condition d u = r' at first
    cases first with
    | fault => exact .fault
    | @value c c' v w same alike =>
        obtain rfl := same
        have fewer := Nat.lt_of_le_of_lt v.remaining_next_le (remaining_lt_of_condition read)
        simp only [← alike.kind_eq, ← alike.next.kind_eq]
        split
        next =>
          split
          next => exact .value rfl alike.next.peek
          next =>
            have rest := ih _ fewer alike.next rfl
            generalize conditions d v.next.2 = r, conditions d w.next.2 = r' at rest
            cases rest with
            | value same alike => exact .value (congrArg (c :: ·) same) alike
            | fault => exact .fault
        next => exact .value rfl alike.peek

theorem parallels_braces (d : Dialect) : Parallels Eq (braces d) (braces d) := by
  have list : Parallels Eq (ExceptT.mk (conditions d)) (ExceptT.mk (conditions d)) :=
    fun _ _ => parallel_conditions d
  refine (parallels_expect .lbrace).bind fun _ _ _ => ?_
  refine parallels_peek.bind fun token token' same => ?_
  rw [same.kind_eq]
  split
  next =>
    refine (parallels_pure rfl).bind fun cs cs' same => ?_
    exact (parallels_expect .rbrace).bind fun _ _ _ => parallels_pure same
  next =>
    refine list.bind fun cs cs' same => ?_
    exact (parallels_expect .rbrace).bind fun _ _ _ => parallels_pure same

theorem parallels_read (d : Dialect) : Parallels Eq (read d) (read d) := by
  refine parallels_peek.bind fun token token' same => ?_
  rw [same.kind_eq]
  split
  next =>
    refine parallels_next.bind fun name name' sameName => ?_
    refine parallels_peek.bind fun behind behind' same => ?_
    rw [sameName.text_eq, same.kind_eq]
    split
    next =>
      refine (parallels_braces d).bind fun cs cs' same => ?_
      exact parallels_pure (congrArg _ same)
    next => exact parallels_pure rfl
  next => exact parallels_braces d

theorem parallels_readAll (d : Dialect) : Parallels Eq (readAll d) (readAll d) :=
  (parallels_read d).bind fun _ _ same =>
    (parallels_expect .eof).bind fun _ _ _ => parallels_pure same

/-- Readers side by side give the same answer. -/
theorem Parallel.sameAnswer {r r' : Except ParseError α × Tokenizer}
    (parallel : Parallel Eq r r') : SameAnswer r.1 r'.1 := by
  cases parallel with
  | value same _ =>
      cases same
      exact .value _
  | fault => exact .fault _ _ _ _

/-- Texts whose tokens differ in places only are read in the same way. -/
theorem sameAnswer_parse {text text' : String} (d : Dialect)
    (same : (tokenize text).map Token.content = (tokenize text').map Token.content) :
    SameAnswer (parse d text) (parse d text') :=
  (parallels_readAll d (Alike.of_tokenize same)).sameAnswer

end Selector

/-! ## Blanks before a token -/

/-- Tokens that have moved are the same but for their places. -/
theorem map_content_of_shifted {before before' rest : List Char} {tokens tokens' : List Token}
    (shifted : List.Forall₂ (Token.Shifted before before' rest) tokens tokens') :
    tokens.map Token.content = tokens'.map Token.content := by
  induction shifted with
  | nil => rfl
  | cons first _ ih =>
      rw [List.map_cons, List.map_cons, ih, Token.content, Token.content, first.kind_eq,
        first.text_eq]

/-- The source of each token before the end of the text begins at one place.
With any blanks inserted there, the tokens before it stay the same.  The token
and those behind it keep their kinds and texts, and are found where their
characters have moved.  So a label set and a matcher are read with the same
result, or with an error that differs in the place only. -/
theorem blanks_before_token {text : String} {k : Nat} {token : Token} {inserted : List Char}
    (found : (tokenize text)[k]? = some token) (more : token.kind ≠ .eof)
    (blank : AllBlank inserted) :
    (∃ front rest, SourceBegins text k front rest) ∧
      ∀ front rest, SourceBegins text k front rest →
        let spaced := String.ofList (front ++ (inserted ++ rest))
        (tokenize spaced).take k = (tokenize text).take k ∧
        List.Forall₂ (Token.Shifted front (front ++ inserted) rest)
          ((tokenize text).drop k) ((tokenize spaced).drop k) ∧
        SameAnswer (LabelSet.parse text) (LabelSet.parse spaced) ∧
        SameAnswer (Matcher.parse text) (Matcher.parse spaced) := by
  refine ⟨exists_sourceBegins found more, ?_⟩
  intro front rest begins spaced
  obtain ⟨earlier, shifted⟩ := tokenize_inserted begins blank
  have same : (tokenize text).map Token.content = (tokenize spaced).map Token.content := by
    rw [← List.take_append_drop k (tokenize text), ← List.take_append_drop k (tokenize spaced),
      List.map_append, List.map_append, map_content_of_shifted shifted, earlier]
  exact ⟨earlier, shifted, (Selector.sameAnswer_parse .labels same).map _,
    (Selector.sameAnswer_parse .matchers same).map _⟩

/-- A space and a line feed before the quote of a string that a line feed breaks
off.  The quote is where the source of the third token begins, although the
token has the place of the line feed. -/
theorem blanks_before_broken_string :
    SourceBegins "a='b\nc" 2 "a=".toList "'b\nc".toList ∧
      (tokenize "a= \n'b\nc").take 2 = (tokenize "a='b\nc").take 2 ∧
      List.Forall₂ (Token.Shifted "a=".toList "a= \n".toList "'b\nc".toList)
        ((tokenize "a='b\nc").drop 2) ((tokenize "a= \n'b\nc").drop 2) ∧
      SameAnswer (LabelSet.parse "a='b\nc") (LabelSet.parse "a= \n'b\nc") ∧
      SameAnswer (Matcher.parse "a='b\nc") (Matcher.parse "a= \n'b\nc") := by
  have found : (tokenize "a='b\nc")[2]? = some ⟨.newline, ⟨1, 5⟩, "b"⟩ := by decide +kernel
  have blank : AllBlank " \n".toList := by simp [AllBlank, isBlank]
  have broken : Token.Source "a=".toList "'b\n".toList ['c'] ⟨.newline, ⟨1, 5⟩, "b"⟩ :=
    .newline rfl (.plain (by decide) (by decide) (by decide) .nil)
  have begins : SourceBegins "a='b\nc" 2 "a=".toList "'b\nc".toList := by
    refine ⟨rfl, ?_, _, _, _, found, broken, rfl⟩
    have first : (tokenize "a='b\nc").take 2 =
        [⟨.ident, ⟨1, 1⟩, "a"⟩, ⟨.eq, ⟨1, 2⟩, ""⟩] := by decide +kernel
    have stops : ∀ x ∈ "='b\nc".toList.head?, isWord x = false := by
      rintro x ⟨⟩
      rfl
    have word : Token.Source [] ['a'] "='b\nc".toList ⟨.ident, ⟨1, 1⟩, "a"⟩ :=
      .ident rfl (by simp) stops
    have sign : Token.Source ['a'] ['='] "'b\nc".toList ⟨.eq, ⟨1, 2⟩, ""⟩ :=
      .sign .eq rfl (by decide)
    have behind : Stretch "'b\nc".toList ['a'] ['='] [⟨.eq, ⟨1, 2⟩, ""⟩] :=
      @Stretch.cons ['a'] [] _ ['='] [] _ _ .nil sign (.blank .nil)
    rw [first]
    exact @Stretch.cons [] [] _ ['a'] ['='] _ _ .nil word behind
  have spaced : String.ofList ("a=".toList ++ (" \n".toList ++ "'b\nc".toList)) =
      "a= \n'b\nc" := by decide +kernel
  obtain ⟨_, moves⟩ := blanks_before_token found Token.Kind.noConfusion blank
  have moved := moves _ _ begins
  rw [spaced] at moved
  exact ⟨begins, moved⟩

end MetricLabels
