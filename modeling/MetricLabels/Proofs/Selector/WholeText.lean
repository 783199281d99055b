import MetricLabels.Proofs.Selector.Places
import MetricLabels.Proofs.Selector.Reading
import MetricLabels.Proofs.Token.Tiles

/-!
# How much of a text is the selector

A text is accepted if a word of the grammar stands in it and the end comes next.
The end is a kind of token, and there are two ways to come to it.  Either the
tokens of the selector cover the text, with nothing left but blanks
(`Covers`), or the text breaks off inside a quoted value that opens behind them
(`BreaksOff`).  In the second case what follows the opening quote is lost.

So the whole text is the selector exactly if it does not end inside an open
quote (`parse_covers_iff`).
-/

namespace MetricLabels.Selector

open Tokenizer

variable {d : Dialect} {cs : List Condition} {v w : List Token} {text : String}

/-- Every character of the text is a blank or belongs to one of the tokens, which
stand in it in this order. -/
def Covers (w : List Token) (text : String) : Prop :=
  ∃ q rest, Tiles .start text.toList w q rest ∧ AllBlank rest

/-- Behind the tokens and blanks, a quote opens and does not close. -/
def BreaksOff (w : List Token) (text : String) : Prop :=
  ∃ q rest, Tiles .start text.toList w q rest ∧ OpensQuote rest

/-- The text ends inside quotes. -/
def EndsOpen (text : String) : Prop := ∃ w, BreaksOff w text

/-- Tokens that cover a text leave no quote open. -/
theorem Covers.not_endsOpen (covers : Covers w text) : ¬EndsOpen text := by
  rintro ⟨v, q', rest', tiles', opens⟩
  obtain ⟨q, rest, tiles, blank⟩ := covers
  obtain ⟨_, rfl⟩ := tiles.unique tiles' (.inl blank) (.inr opens)
  exact opens.not_allBlank blank

/-- The end comes next behind the tokens. -/
theorem takes_eof_iff (more : ∀ token ∈ w, token.kind ≠ .eof) :
    (∃ u, (Tokenizer.ofString text).Takes w u ∧ u.next.1.kind = .eof) ↔
      Covers w text ∨ BreaksOff w text := by
  constructor
  · rintro ⟨u, taken, eof⟩
    obtain ⟨tiles, fresh⟩ := tiles_of_takes taken rfl more
    rcases (next_eq_eof_iff fresh).mp eof with blank | opens
    · exact .inl ⟨_, _, tiles, blank⟩
    · exact .inr ⟨_, _, tiles, opens⟩
  · intro ends
    obtain ⟨q, rest, tiles, ends⟩ : ∃ q rest, Tiles .start text.toList w q rest ∧
        (AllBlank rest ∨ OpensQuote rest) := by
      rcases ends with ⟨q, rest, tiles, blank⟩ | ⟨q, rest, tiles, opens⟩
      · exact ⟨q, rest, tiles, .inl blank⟩
      · exact ⟨q, rest, tiles, .inr opens⟩
    obtain ⟨u, taken, fresh, _, rfl⟩ :=
      takes_of_tiles tiles (t := Tokenizer.ofString text) rfl rfl rfl
    exact ⟨u, taken, (next_eq_eof_iff fresh).mpr ends⟩

/-- Exactly the texts in which a word stands are accepted, with nothing but
blanks behind it or an open quote. -/
theorem parse_eq_ok_iff_tokens :
    parse d text = .ok cs ↔ ∃ w, Word d cs w ∧ (Covers w text ∨ BreaksOff w text) := by
  rw [parse_eq_ok_iff]
  constructor
  · rintro ⟨w, u, word, taken, eof⟩
    exact ⟨w, word, (takes_eof_iff word.ne_eof).mp ⟨u, taken, eof⟩⟩
  · rintro ⟨w, word, ends⟩
    obtain ⟨u, taken, eof⟩ := (takes_eof_iff word.ne_eof).mpr ends
    exact ⟨w, u, word, taken, eof⟩

/-- A text is read as a word that covers it, unless it breaks off. -/
theorem covers_of_parse (closed : ¬∃ cs w, Word d cs w ∧ BreaksOff w text)
    (parsed : parse d text = .ok cs) : ¬EndsOpen text ∧ ∃ w, Word d cs w ∧ Covers w text := by
  obtain ⟨w, word, covers | breaks⟩ := parse_eq_ok_iff_tokens.mp parsed
  · exact ⟨covers.not_endsOpen, w, word, covers⟩
  · exact absurd ⟨cs, w, word, breaks⟩ closed

/-- The tokens of the selector cover a text that is accepted as a label set, and
no quote is left open in it, exactly if the text is not a selector with an open
quote behind it.  The same holds for matchers. -/
theorem parse_covers_iff (text : String) :
    ((∀ s, LabelSet.parse text = .ok s → ¬EndsOpen text ∧
        ∃ cs w, Word .labels cs w ∧ s = .ofConditions cs ∧ Covers w text) ↔
      ¬∃ cs w, Word .labels cs w ∧ BreaksOff w text) ∧
    ((∀ m, Matcher.parse text = .ok m → ¬EndsOpen text ∧
        ∃ w, Word .matchers m.conditions w ∧ Covers w text) ↔
      ¬∃ cs w, Word .matchers cs w ∧ BreaksOff w text) := by
  refine ⟨⟨?_, ?_⟩, ⟨?_, ?_⟩⟩
  · rintro covered ⟨cs, w, word, breaks⟩
    have parsed := parse_eq_ok_iff_tokens.mpr ⟨w, word, .inr breaks⟩
    exact (covered _ (labelSet_parse_eq_ok_iff.mpr ⟨cs, parsed, rfl⟩)).1 ⟨w, breaks⟩
  · intro closed s accepted
    obtain ⟨cs, parsed, rfl⟩ := labelSet_parse_eq_ok_iff.mp accepted
    obtain ⟨shut, w, word, covers⟩ := covers_of_parse closed parsed
    exact ⟨shut, cs, w, word, rfl, covers⟩
  · rintro covered ⟨cs, w, word, breaks⟩
    have parsed := parse_eq_ok_iff_tokens.mpr ⟨w, word, .inr breaks⟩
    exact (covered ⟨cs⟩ (matcher_parse_eq_ok_iff.mpr parsed)).1 ⟨w, breaks⟩
  · intro closed m accepted
    exact covers_of_parse closed (matcher_parse_eq_ok_iff.mp accepted)

/-- A name is accepted with an open quote behind it. -/
theorem parse_accepts_open_quote :
    LabelSet.parse "cpu \"abc" = .ok (.ofList [("__name__", "cpu")]) ∧
      Matcher.parse "cpu \"abc" = .ok ⟨[⟨.equal, "__name__", "cpu"⟩]⟩ ∧
      EndsOpen "cpu \"abc" ∧ ∀ w, ¬Covers w "cpu \"abc" := by
  have name : Lexeme.Spells (.plain .ident ['c', 'p', 'u']) ['c', 'p', 'u']
      [' ', '"', 'a', 'b', 'c'] :=
    .word rfl (List.all_eq_true.mp rfl) fun _ same => Option.some.inj same ▸ rfl
  have body : Quoted.Written '"' ['a', 'b', 'c'] ['a', 'b', 'c'] := by
    refine .plain ?_ ?_ ?_ (.plain ?_ ?_ ?_ (.plain ?_ ?_ ?_ .nil)) <;> decide
  have quote : OpensQuote [' ', '"', 'a', 'b', 'c'] :=
    ⟨[' '], '"', _, _, List.forall_mem_singleton.mpr rfl, rfl, body, rfl⟩
  have tiles : Tiles .start ([] ++ (['c', 'p', 'u'] ++ [' ', '"', 'a', 'b', 'c'])) _ _ _ :=
    .cons .nil name (by decide) (.nil _ _)
  obtain ⟨token, breaks, named, written⟩ : ∃ token : Token,
      BreaksOff [token] "cpu \"abc" ∧ token.kind = .ident ∧ token.text = "cpu" :=
    ⟨_, ⟨_, _, tiles, quote⟩, rfl, rfl⟩
  have parsed (d : Dialect) : parse d "cpu \"abc" = .ok [metric "cpu"] := by
    rw [← written]
    exact parse_eq_ok_iff_tokens.mpr ⟨_, .name named, .inr breaks⟩
  refine ⟨labelSet_parse_eq_ok_iff.mpr ⟨_, parsed .labels, rfl⟩,
    matcher_parse_eq_ok_iff.mpr (parsed .matchers), ⟨_, breaks⟩, ?_⟩
  exact fun w covers => covers.not_endsOpen ⟨_, breaks⟩

end MetricLabels.Selector
