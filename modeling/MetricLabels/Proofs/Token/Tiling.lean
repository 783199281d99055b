import MetricLabels.Proofs.Text.BareName
import MetricLabels.Proofs.Text.Lines
import MetricLabels.Proofs.Text.LongestNumeral
import MetricLabels.Proofs.Token.Tiles

/-!
# The tokens of a text, told by the text alone

`Token.Source before s rest token` says what the source of a token is: the
characters `s`, between what is written before and behind them, spell it out.
The kind, the text and the place of the token follow from these three.

`Tiling before text tokens` cuts a text into such sources, blanks, and what is
left at the end: nothing, or a quote that never closes.  Each text has one tiling
(`exists_tiling`), and the tokens of the tiling are those that the tokenizer
gives (`tokenize_eq_iff`).  So no character is lost or read twice, and every
position is the line and the column found by counting.
-/

namespace MetricLabels

/-! ## Sources -/

/-- Behind the characters `before` and in front of `rest`, the characters `s` are
the source of the token. -/
inductive Token.Source (before : List Char) : List Char → List Char → Token → Prop where
  /-- A word that starts with a letter or an underscore, and as long as it can
  be. -/
  | ident {c : Char} {cs rest : List Char} :
      (c.isAlpha || c == '_') = true → (∀ x ∈ cs, isWord x = true) →
      (∀ x ∈ rest.head?, isWord x = false) →
      Source before (c :: cs) rest ⟨.ident, .behind before, String.ofList (c :: cs)⟩
  /-- A numeral that starts with a minus sign or a digit, and as long as it can
  be. -/
  | number {c : Char} {cs rest : List Char} :
      (c == '-' || c.isDigit) = true → Numeral.Longest (c :: cs) (c :: cs ++ rest) →
      Source before (c :: cs) rest ⟨.number, .behind before, String.ofList (c :: cs)⟩
  /-- A body between two equal quotes. -/
  | string {quote : Char} {body text rest : List Char} :
      Quoted.isQuote quote = true → Quoted.Written quote body text →
      Source before (quote :: (body ++ [quote])) rest
        ⟨.string, .behind before, String.ofList text⟩
  /-- A quote and a body up to a line feed, which is the place of the token. -/
  | newline {quote : Char} {body text rest : List Char} :
      Quoted.isQuote quote = true → Quoted.Written quote body text →
      Source before (quote :: (body ++ ['\n'])) rest
        ⟨.newline, .behind (before ++ quote :: body), String.ofList text⟩
  /-- A quote and a body up to a backslash, which is the place of the token, and
  the character behind that, which takes no backslash. -/
  | badEscape {quote c : Char} {body text rest : List Char} :
      Quoted.isQuote quote = true → Quoted.Written quote body text →
      Quoted.isEscapable c = false →
      Source before (quote :: (body ++ ['\\', c])) rest
        ⟨.badEscape, .behind (before ++ quote :: body), String.ofList ['\\', c]⟩
  /-- The same with the end of the text behind the backslash. -/
  | lastEscape {quote : Char} {body text : List Char} :
      Quoted.isQuote quote = true → Quoted.Written quote body text →
      Source before (quote :: (body ++ ['\\'])) []
        ⟨.badEscape, .behind (before ++ quote :: body), String.ofList ['\\']⟩
  /-- An operator, a bracket or a comma. -/
  | sign (kind : Token.Kind) {s rest : List Char} :
      kind.sign? = some s → (kind = .eq → rest.head? ≠ some '~') →
      Source before s rest ⟨kind, .behind before, ""⟩
  /-- A character with which none of the other sources starts. -/
  | invalid {c : Char} {rest : List Char} :
      isBlank c = false → isWord c = false → c ≠ '-' → Quoted.isQuote c = false →
      (∀ (kind : Token.Kind) (s : List Char), kind.sign? = some s → ¬s <+: c :: rest) →
      Source before [c] rest ⟨.invalid, .behind before, String.ofList [c]⟩

/-- Behind the characters `before`, the text consists of blanks and the sources of
the tokens, up to the end of the text. -/
inductive Tiling : List Char → List Char → List Token → Prop where
  /-- Only blanks are left. -/
  | blank {before blanks : List Char} :
      AllBlank blanks → Tiling before blanks [⟨.eof, .behind (before ++ blanks), ""⟩]
  /-- A quote opens and does not close.  The end of the text carries what stands
  behind the quote. -/
  | openQuote {before blanks body text : List Char} {quote : Char} :
      AllBlank blanks → Quoted.isQuote quote = true → Quoted.Written quote body text →
      Tiling before (blanks ++ quote :: body)
        [⟨.eof, .behind (before ++ (blanks ++ quote :: body)), String.ofList text⟩]
  /-- Behind blanks there is the source of a token. -/
  | token {before blanks s rest : List Char} {token : Token} {tokens : List Token} :
      AllBlank blanks → token.Source (before ++ blanks) s rest →
      Tiling (before ++ (blanks ++ s)) rest tokens →
      Tiling before (blanks ++ (s ++ rest)) (token :: tokens)

variable {before blanks s rest text : List Char} {token : Token} {tokens : List Token}

/-! ## Sources spell lexemes -/

namespace Lexeme

variable {l : Lexeme}

theorem tokenAt_blanks (l : Lexeme) (before blanks s : List Char) :
    l.tokenAt (.behind before) blanks s = l.tokenAt (.behind (before ++ blanks)) [] s := by
  simp [tokenAt]

/-- Quoted text that breaks off reports the place behind the opening quote and
the body. -/
theorem tokenAt_broken (kind : Token.Kind) (before text body tail : List Char) (quote : Char)
    (size : Nat) :
    (Lexeme.mk kind text (body.length + 1) size).tokenAt (.behind before) []
        (quote :: (body ++ tail)) =
      ⟨kind, .behind (before ++ quote :: body), String.ofList text⟩ := by
  rw [tokenAt, List.nil_append, List.take_succ_cons, List.take_left, Position.behind_after]

theorem spells_ending (ending : Quoted.Ending) {quote : Char} {body text : List Char}
    (quoted : Quoted.isQuote quote = true) (written : Quoted.Written quote body text)
    (leaves : ending.Leaves rest) :
    Spells (ofQuoted ⟨text, body.length, ending⟩) (quote :: (body ++ ending.source quote)) rest :=
  .quoted quoted written leaves

/-- What spells a lexeme is the source of its token. -/
theorem Spells.source (spelled : l.Spells s rest) (more : l.kind ≠ .eof) :
    Token.Source before s rest (l.tokenAt (.behind before) [] s) := by
  cases spelled with
  | @numeral c cs _ numeral longest =>
      have found := Numeral.longest_first (c :: cs ++ rest)
      rw [longest] at found
      exact .number numeral found
  | word notNumeral word stops =>
      obtain ⟨first, others⟩ := List.forall_mem_cons.mp word
      exact .ident ((startsName_iff _).mpr ⟨first, notNumeral⟩) others stops
  | @quoted quote body text _ ending quoted written leaves =>
      cases ending with
      | closed => exact .string quoted written
      | unterminated => exact absurd rfl more
      | newline =>
          simp only [ofQuoted, tokenAt_broken]
          exact .newline quoted written
      | badEscape c =>
          simp only [ofQuoted, tokenAt_broken]
          cases c with
          | none =>
              obtain rfl : rest = [] := leaves
              exact .lastEscape quoted written
          | some c => exact .badEscape quoted written leaves
  | sign kind sign alone => exact .sign kind sign alone
  | @stray c _ notBlank notNumeral notWord notQuote unsigned =>
      have notMinus : c ≠ '-' := by
        rintro rfl
        cases notNumeral
      exact .invalid notBlank notWord notMinus notQuote unsigned

/-- Behind blanks, the source is the same. -/
theorem Spells.source_behind (spelled : l.Spells s rest) (more : l.kind ≠ .eof)
    (before blanks : List Char) :
    Token.Source (before ++ blanks) s rest (l.tokenAt (.behind before) blanks s) := by
  rw [tokenAt_blanks]
  exact spelled.source more

end Lexeme

/-- The source of a token spells a lexeme, whose token it is. -/
theorem Token.Source.exists_spells (source : token.Source before s rest) :
    ∃ l : Lexeme, l.Spells s rest ∧ l.kind ≠ .eof ∧
      token = l.tokenAt (.behind before) [] s := by
  cases source with
  | @ident c cs _ starts others stops =>
      obtain ⟨word, notNumeral⟩ := (startsName_iff c).mp starts
      exact ⟨_, .word notNumeral (List.forall_mem_cons.mpr ⟨word, others⟩) stops,
        Token.Kind.noConfusion, rfl⟩
  | number numeral longest =>
      exact ⟨_, .numeral numeral longest.eq_first.symm, Token.Kind.noConfusion, rfl⟩
  | string quoted written =>
      exact ⟨_, Lexeme.spells_ending .closed quoted written trivial, Token.Kind.noConfusion, rfl⟩
  | newline quoted written =>
      exact ⟨_, Lexeme.spells_ending .newline quoted written trivial, Token.Kind.noConfusion,
        (Lexeme.tokenAt_broken _ _ _ _ _ _ _).symm⟩
  | @badEscape _ c _ _ _ quoted written bad =>
      exact ⟨_, Lexeme.spells_ending (.badEscape (some c)) quoted written bad,
        Token.Kind.noConfusion, (Lexeme.tokenAt_broken _ _ _ _ _ _ _).symm⟩
  | lastEscape quoted written =>
      exact ⟨_, Lexeme.spells_ending (.badEscape none) quoted written rfl,
        Token.Kind.noConfusion, (Lexeme.tokenAt_broken _ _ _ _ _ _ _).symm⟩
  | sign kind sign alone =>
      refine ⟨_, .sign kind sign alone, ?_, rfl⟩
      rintro rfl
      cases sign
  | @invalid c _ notBlank notWord notMinus notQuote unsigned =>
      have notNumeral : startsNumeral c = false := by
        have notDigit : c.isDigit = false := by
          rw [isWord_eq] at notWord
          simp_all
        simp [startsNumeral, notDigit, notMinus]
      exact ⟨_, .stray notBlank notNumeral notWord notQuote unsigned, Token.Kind.noConfusion, rfl⟩

/-! ## Each text has one tiling -/

/-- Every text is tiled, by induction on how much of it is left. -/
theorem exists_tiling (text before : List Char) : ∃ tokens, Tiling before text tokens := by
  induction n : text.length using Nat.strong_induction_on generalizing text before with
  | h n ih =>
    subst n
    rcases allBlank_or_spells text with blank | ⟨blanks, s, rest, l, blank, spelled, rfl⟩
    · exact ⟨_, .blank blank⟩
    by_cases eof : l.kind = .eof
    · obtain ⟨quote, body, contents, quoted, written, rfl, rfl⟩ := spelled.of_eof eof
      rw [List.append_nil]
      exact ⟨_, .openQuote blank quoted written⟩
    · obtain ⟨c, cs, rfl, _⟩ := spelled.exists_cons
      have shorter : rest.length < (blanks ++ (c :: cs ++ rest)).length := by simp; omega
      obtain ⟨tokens, tiling⟩ := ih _ shorter rest (before ++ (blanks ++ c :: cs)) rfl
      exact ⟨_, .token blank (spelled.source eof) tiling⟩

/-! ## Places -/

theorem Token.Source.exists_place (source : token.Source before s rest) :
    ∃ front, front <+: before ++ s ∧ token.pos = .behind front := by
  cases source with
  | newline => exact ⟨_, ⟨['\n'], by simp⟩, rfl⟩
  | @badEscape _ c => exact ⟨_, ⟨['\\', c], by simp⟩, rfl⟩
  | lastEscape => exact ⟨_, ⟨['\\'], by simp⟩, rfl⟩
  | _ => exact ⟨before, List.prefix_append _ _, rfl⟩

/-- Every token has a place in the text. -/
theorem Tiling.exists_place (tiling : Tiling before text tokens) :
    ∀ token ∈ tokens, ∃ front, front <+: before ++ text ∧ token.pos = .behind front := by
  induction tiling with
  | blank | openQuote =>
      intro token member
      obtain rfl := List.mem_singleton.mp member
      exact ⟨_, List.prefix_rfl, rfl⟩
  | @token before blanks s rest _ _ _ source _ ih =>
      have whole : before ++ (blanks ++ s) ++ rest = before ++ (blanks ++ (s ++ rest)) := by simp
      intro token member
      rcases List.mem_cons.mp member with rfl | member
      · obtain ⟨front, starts, place⟩ := source.exists_place
        rw [List.append_assoc] at starts
        exact ⟨front, starts.trans (whole ▸ List.prefix_append _ _), place⟩
      · exact whole ▸ ih token member

/-! ## Taking the tokens of a tiling -/

namespace Tokenizer

variable {t : Tokenizer}

theorem next_blank (fresh : t.peeked = none) (pos : t.cursor.pos = .behind before)
    (blank : AllBlank t.cursor.ahead) :
    t.next.1 = ⟨.eof, .behind (before ++ t.cursor.ahead), ""⟩ := by
  have skipped := Cursor.skipWhile_isBlank (List.append_nil t.cursor.ahead).symm blank (by simp)
  rw [next_fresh fresh, Cursor.scan, skipped, pos, Position.behind_after]
  rfl

theorem next_openQuote {body : List Char} {quote : Char} (fresh : t.peeked = none)
    (pos : t.cursor.pos = .behind before) (ahead : t.cursor.ahead = blanks ++ quote :: body)
    (blank : AllBlank blanks) (quoted : Quoted.isQuote quote = true)
    (written : Quoted.Written quote body text) :
    t.next.1 = ⟨.eof, .behind (before ++ (blanks ++ quote :: body)), String.ofList text⟩ := by
  have spelled := Lexeme.spells_open quoted written
  have broken := Lexeme.tokenAt_broken .eof (before ++ blanks) text body [] quote (body.length + 1)
  rw [next_fresh fresh, Cursor.scan_spelled (by simpa using ahead) blank spelled, pos,
    Lexeme.tokenAt_blanks]
  simpa [Lexeme.ofQuoted, Quoted.Body.size, Quoted.Ending.width] using broken

/-- A tokenizer gives the tokens of a tiling of what is ahead, and no others. -/
theorem drain_of_tiling (tiling : Tiling before text tokens) : ∀ {t : Tokenizer},
    t.peeked = none → t.done = false → t.cursor.pos = .behind before →
      t.cursor.ahead = text → t.drain.1 = tokens := by
  induction tiling with
  | blank blank =>
      rintro t fresh going pos rfl
      have last := next_blank fresh pos blank
      rw [drain_of_eof going (by rw [last]), last]
  | openQuote blank quoted written =>
      intro t fresh going pos ahead
      have last := next_openQuote fresh pos ahead blank quoted written
      rw [drain_of_eof going (by rw [last]), last]
  | @token before blanks s rest token tokens blank source _ ih =>
      intro t fresh going pos ahead
      obtain ⟨l, spelled, more, rfl⟩ := source.exists_spells
      have scanned := next_fresh fresh
      rw [Cursor.scan_spelled ahead blank spelled, pos, Lexeme.tokenAt_blanks] at scanned
      have rest := ih (t := t.next.2) (by rw [scanned]; exact fresh) (by rw [done_next, going])
        (by rw [scanned]; exact Position.behind_after _ _) (by rw [scanned])
      rw [drain_of_ne_eof going (by rw [scanned]; exact more), rest, scanned]

end Tokenizer

/-- The tokens of a text tile it. -/
theorem tiling_tokenize (text : String) : Tiling [] text.toList (tokenize text) := by
  obtain ⟨tokens, tiling⟩ := exists_tiling text.toList []
  rw [tokenize, Tokenizer.drain_of_tiling tiling rfl rfl rfl rfl]
  exact tiling

/-- The tokens of a text are those that tile it, and no others. -/
theorem tokenize_eq_iff {text : String} {tokens : List Token} :
    tokenize text = tokens ↔ Tiling [] text.toList tokens := by
  constructor
  · rintro rfl
    exact tiling_tokenize text
  · intro tiling
    exact Tokenizer.drain_of_tiling tiling rfl rfl rfl rfl

end MetricLabels
