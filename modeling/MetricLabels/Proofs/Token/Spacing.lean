import Mathlib.Data.List.Forall2
import MetricLabels.Proofs.Token.Tiling

/-!
# Blanks before a token

The source of a token ends where it does because of the one character behind it,
and a blank there ends it as well (`Token.Source.of_spaces`).  So blanks may be
inserted before the source of any token.  The tokens before it stay what they
are, and those from there on keep their kinds and texts and move with their
sources (`tokenize_inserted`).

`SourceBegins` tells where the source of a token begins, by a tiling of what
stands before it.
-/

namespace MetricLabels

variable {before before' blanks front inserted rest rest' s text : List Char} {token : Token}
  {tokens tokens' : List Token}

/-! ## What stands behind a source -/

/-- The second text is empty if the first is, and starts with a blank or as the
first does otherwise. -/
structure Spaces (rest rest' : List Char) : Prop where
  /-- No blanks are added at the end of a text. -/
  ends : rest = [] → rest' = []
  /-- What comes first is a blank, or comes first anyway. -/
  starts : ∀ c ∈ rest'.head?, isBlank c = true ∨ c ∈ rest.head?

theorem Spaces.insert (blank : AllBlank inserted) (more : rest ≠ []) :
    Spaces (front ++ rest) (front ++ (inserted ++ rest)) where
  ends nothing := absurd (List.append_eq_nil_iff.mp nothing).2 more
  starts c first := by
    cases front with
    | cons x front => exact .inr first
    | nil =>
        cases inserted with
        | nil => exact .inr first
        | cons x inserted =>
            obtain rfl := Option.some.inj first
            exact .inl (blank x (.head _))

/-- If the first text does not start with a character of a class without blanks,
neither does the second. -/
theorem Spaces.stops {p : Char → Bool} (spaces : Spaces rest rest')
    (others : ∀ c, p c = true → isBlank c = false) (stops : ∀ c ∈ rest.head?, p c = false) :
    ∀ c ∈ rest'.head?, p c = false := by
  intro c first
  rcases spaces.starts c first with blank | same
  · refine Bool.eq_false_iff.mpr fun member => ?_
    rw [others c member] at blank
    cases blank
  · exact stops c same

/-- A sign has one character, or a second one that is no blank. -/
theorem Token.Kind.sign?_cases {kind : Token.Kind} (sign : kind.sign? = some s) :
    ∃ c, s = [c] ∨ ∃ d, isBlank d = false ∧ s = [c, d] := by
  cases kind with
  | neq | eqRegexp | neqRegexp => cases sign; exact ⟨_, .inr ⟨_, rfl, rfl⟩⟩
  | _ => cases sign <;> exact ⟨_, .inl rfl⟩

/-- Blanks behind a character do not make it start with a sign. -/
theorem Spaces.sign_prefix {kind : Token.Kind} {c : Char} (spaces : Spaces rest rest')
    (sign : kind.sign? = some s) (starts : s <+: c :: rest') : s <+: c :: rest := by
  obtain ⟨x, rfl | ⟨d, notBlank, rfl⟩⟩ := Token.Kind.sign?_cases sign
  · obtain ⟨rfl, _⟩ := List.cons_prefix_cons.mp starts
    exact ⟨rest, rfl⟩
  · obtain ⟨rfl, second⟩ := List.cons_prefix_cons.mp starts
    obtain ⟨more, rfl⟩ := second
    rcases spaces.starts d rfl with blank | same
    · rw [notBlank] at blank
      cases blank
    · obtain ⟨more, rfl⟩ := List.head?_eq_some_iff.mp same
      exact ⟨more, rfl⟩

/-- Blanks behind the source of a token do not change the token. -/
theorem Token.Source.of_spaces (source : token.Source before s rest)
    (spaces : Spaces rest rest') : token.Source before s rest' := by
  cases source with
  | ident starts others stops =>
      exact .ident starts others (spaces.stops (fun _ => Lexeme.isBlank_of_isWord) stops)
  | number starts longest =>
      -- A longer numeral would have the blank in it.
      obtain ⟨numeral, stops⟩ := Numeral.longest_append_iff.mp longest
      refine .number starts (Numeral.longest_append_iff.mpr ⟨numeral, fun c first longer => ?_⟩)
      rcases spaces.starts c first with blank | same
      · have part := longer.isPart c (by simp)
        rw [Lexeme.isBlank_of_class rfl rfl rfl part] at blank
        cases blank
      · exact stops c same longer
  | string quoted written => exact .string quoted written
  | newline quoted written => exact .newline quoted written
  | badEscape quoted written bad => exact .badEscape quoted written bad
  | lastEscape quoted written =>
      rw [spaces.ends rfl]
      exact .lastEscape quoted written
  | sign kind sign alone =>
      refine .sign kind sign fun eq first => ?_
      rcases spaces.starts '~' first with blank | same
      · cases blank
      · exact alone eq same
  | invalid notBlank notWord notMinus notQuote unsigned =>
      refine .invalid notBlank notWord notMinus notQuote fun kind s sign starts => ?_
      exact unsigned kind s sign (spaces.sign_prefix sign starts)

theorem Token.Source.ne_nil (source : token.Source before s rest) : s ≠ [] := by
  obtain ⟨_, spelled, _⟩ := source.exists_spells
  obtain ⟨c, cs, rfl, _⟩ := spelled.exists_cons
  exact List.cons_ne_nil c cs

/-! ## What stands before a source -/

/-- The tokens have the same kind and text, and the places of the same character
of the text, or of its end, behind `before` and behind `before'`. -/
structure Token.Shifted (before before' text : List Char) (token token' : Token) : Prop where
  /-- The kind is the same. -/
  kind_eq : token.kind = token'.kind
  /-- The text is the same. -/
  text_eq : token.text = token'.text
  /-- The places are those behind the same part of the text. -/
  exists_place : ∃ passed, passed <+: text ∧ token.pos = .behind (before ++ passed) ∧
    token'.pos = .behind (before' ++ passed)

namespace Token

/-- The place in a stretch of the text is a place in the text. -/
theorem Shifted.widen {token' : Token}
    (shifted : Shifted (before ++ front) (before' ++ front) s token token')
    (part : front ++ s <+: text) : Shifted before before' text token token' := by
  obtain ⟨passed, inside, place, place'⟩ := shifted.exists_place
  refine ⟨shifted.kind_eq, shifted.text_eq, front ++ passed, ?_, ?_, ?_⟩
  · exact ((List.prefix_append_right_inj front).mpr inside).trans part
  · rw [place, List.append_assoc]
  · rw [place', List.append_assoc]

/-- What stands before the source of a token moves the token and nothing else. -/
theorem Source.shift (source : token.Source before s rest) (before' : List Char) :
    ∃ token' : Token, token'.Source before' s rest ∧ Shifted before before' s token token' := by
  have atStart (kind : Kind) (contents : String) : Shifted before before' s
      ⟨kind, .behind before, contents⟩ ⟨kind, .behind before', contents⟩ :=
    ⟨rfl, rfl, [], List.nil_prefix, by simp, by simp⟩
  have brokenOff (kind : Kind) (contents : String) (passed tail : List Char)
      (cut : s = passed ++ tail) : Shifted before before' s
      ⟨kind, .behind (before ++ passed), contents⟩ ⟨kind, .behind (before' ++ passed), contents⟩ :=
    ⟨rfl, rfl, passed, ⟨tail, cut.symm⟩, rfl, rfl⟩
  cases source with
  | ident starts others stops => exact ⟨_, .ident starts others stops, atStart _ _⟩
  | number starts longest => exact ⟨_, .number starts longest, atStart _ _⟩
  | string quoted written => exact ⟨_, .string quoted written, atStart _ _⟩
  | newline quoted written => exact ⟨_, .newline quoted written, brokenOff _ _ _ ['\n'] rfl⟩
  | @badEscape _ c _ _ _ quoted written bad =>
      exact ⟨_, .badEscape quoted written bad, brokenOff _ _ _ ['\\', c] rfl⟩
  | lastEscape quoted written => exact ⟨_, .lastEscape quoted written, brokenOff _ _ _ ['\\'] rfl⟩
  | sign kind sign alone => exact ⟨_, .sign kind sign alone, atStart _ _⟩
  | invalid notBlank notWord notMinus notQuote unsigned =>
      exact ⟨_, .invalid notBlank notWord notMinus notQuote unsigned, atStart _ _⟩

end Token

theorem AllBlank.append {more : List Char} (blank : AllBlank blanks) (blank' : AllBlank more) :
    AllBlank (blanks ++ more) := List.forall_mem_append.mpr ⟨blank, blank'⟩

namespace Tiling

/-- What stands before a text moves its tokens and does nothing else to them. -/
theorem shift (tiling : Tiling before text tokens) : ∀ before', ∃ tokens',
    Tiling before' text tokens' ∧
      List.Forall₂ (Token.Shifted before before' text) tokens tokens' := by
  induction tiling with
  | @blank before blanks blank =>
      intro before'
      exact ⟨_, .blank blank, .cons ⟨rfl, rfl, blanks, List.prefix_rfl, rfl, rfl⟩ .nil⟩
  | openQuote blank quoted written =>
      intro before'
      exact ⟨_, .openQuote blank quoted written,
        .cons ⟨rfl, rfl, _, List.prefix_rfl, rfl, rfl⟩ .nil⟩
  | @token before blanks s rest token tokens blank source _ ih =>
      intro before'
      obtain ⟨token', source', first⟩ := source.shift (before' ++ blanks)
      obtain ⟨tokens', tiling', others⟩ := ih (before' ++ (blanks ++ s))
      refine ⟨_, .token blank source' tiling', .cons (first.widen ⟨rest, by simp⟩) ?_⟩
      exact others.imp fun _ _ shifted => shifted.widen ⟨[], by simp⟩

/-- Blanks before the text belong to it. -/
theorem behind_blanks (blank : AllBlank blanks) (tiling : Tiling (before ++ blanks) text tokens) :
    Tiling before (blanks ++ text) tokens := by
  cases tiling with
  | @blank _ more blank' =>
      rw [List.append_assoc]
      exact .blank (blank.append blank')
  | @openQuote _ more _ _ _ blank' quoted written =>
      rw [List.append_assoc, ← List.append_assoc blanks]
      exact .openQuote (blank.append blank') quoted written
  | @token _ more _ _ _ _ blank' source tiling =>
      rw [← List.append_assoc blanks]
      refine .token (blank.append blank') (by rwa [← List.append_assoc]) ?_
      simpa using tiling

end Tiling

/-! ## Up to a source -/

namespace Tiles

variable {p q : Position} {left : List Char}

/-- Tiles in front of a tiling are a tiling. -/
theorem tiling (tiles : Tiles p text tokens q left) : ∀ {before front : List Char},
    p = .behind before → text = front ++ left → Tiling (before ++ front) left tokens' →
      Tiling before text (tokens ++ tokens') := by
  induction tiles with
  | nil =>
      intro before front _ cut behind
      obtain rfl : front = [] := List.self_eq_append_left.mp cut
      simpa using behind
  | @cons p q l blanks s rest left w blank spelled more tiles ih =>
      rintro before front rfl cut behind
      obtain ⟨consumed, rfl, _⟩ := tiles.exists_consumed
      obtain rfl : blanks ++ (s ++ consumed) = front :=
        List.append_cancel_right (by simpa using cut)
      exact .token blank (spelled.source_behind more before blanks)
        (ih (Position.behind_after _ _) rfl (by simpa using behind))

/-- Blanks may stand behind tiles. -/
theorem insert (tiles : Tiles p text tokens q left) (blank : AllBlank inserted)
    (more : rest ≠ []) : ∀ {before front blanks : List Char}, p = .behind before →
      text = front ++ rest → left = blanks ++ rest →
        Tiles p (front ++ (inserted ++ rest)) tokens q (blanks ++ (inserted ++ rest)) := by
  induction tiles with
  | nil =>
      rintro before front blanks _ rfl cut
      obtain rfl := List.append_cancel_right cut
      exact .nil _ _
  | @cons p q l spaces s behind left w blank' spelled going tiles ih =>
      rintro before front blanks rfl cut rfl
      obtain ⟨consumed, rfl, _⟩ := tiles.exists_consumed
      obtain rfl : spaces ++ (s ++ (consumed ++ blanks)) = front :=
        List.append_cancel_right (by simpa using cut)
      have source := spelled.source_behind going before spaces
      rw [← List.append_assoc] at source
      obtain ⟨l', spelled', going', same⟩ :=
        (source.of_spaces (.insert blank more)).exists_spells
      rw [← Lexeme.tokenAt_blanks] at same
      rw [same, List.append_assoc, List.append_assoc]
      exact .cons blank' spelled' going' (ih (Position.behind_after _ _) (by simp) rfl)

end Tiles

/-- Behind the characters `before` and in front of `rest`, the text consists of
the tokens, and of blanks before each of them and behind the last. -/
def Stretch (rest before text : List Char) (tokens : List Token) : Prop :=
  ∃ blanks q, AllBlank blanks ∧ Tiles (.behind before) (text ++ rest) tokens q (blanks ++ rest)

namespace Stretch

theorem blank (blank : AllBlank blanks) : Stretch rest before blanks [] :=
  ⟨blanks, _, blank, .nil _ _⟩

/-- The source of a token goes before a stretch. -/
theorem cons (blank : AllBlank blanks)
    (source : token.Source (before ++ blanks) s (text ++ rest))
    (stretch : Stretch rest (before ++ (blanks ++ s)) text tokens) :
    Stretch rest before (blanks ++ (s ++ text)) (token :: tokens) := by
  obtain ⟨left, q, blank', tiles⟩ := stretch
  obtain ⟨l, spelled, more, rfl⟩ := source.exists_spells
  rw [← Position.behind_after] at tiles
  rw [← Lexeme.tokenAt_blanks]
  exact ⟨left, q, blank', by simpa using Tiles.cons blank spelled more tiles⟩

/-- A stretch and a tiling of what stands behind it are a tiling. -/
theorem tiling (stretch : Stretch rest before text tokens)
    (behind : Tiling (before ++ text) rest tokens') :
    Tiling before (text ++ rest) (tokens ++ tokens') := by
  obtain ⟨blanks, q, blank, tiles⟩ := stretch
  obtain ⟨consumed, cut, _⟩ := tiles.exists_consumed
  obtain rfl : text = consumed ++ blanks := List.append_cancel_right (by simpa using cut)
  rw [← List.append_assoc] at behind
  exact tiles.tiling rfl cut (behind.behind_blanks blank)

/-- Blanks may stand behind a stretch. -/
theorem insert (stretch : Stretch rest before text tokens) (blank : AllBlank inserted)
    (more : rest ≠ []) : Stretch (inserted ++ rest) before text tokens := by
  obtain ⟨blanks, q, blank', tiles⟩ := stretch
  exact ⟨blanks, q, blank', tiles.insert blank more rfl rfl rfl⟩

end Stretch

/-- A tiling can be cut before the source of each of its tokens. -/
theorem Tiling.exists_cut (tiling : Tiling before text tokens) : ∀ {k : Nat} {token : Token},
    tokens[k]? = some token → token.kind ≠ .eof → ∃ front s rest, text = front ++ (s ++ rest) ∧
      Stretch (s ++ rest) before front (tokens.take k) ∧ token.Source (before ++ front) s rest := by
  induction tiling with
  | blank | openQuote =>
      intro k token found more
      obtain rfl := List.mem_singleton.mp (List.mem_of_getElem? found)
      exact absurd rfl more
  | @token before blanks s rest _ tokens blank source _ ih =>
      intro k token found more
      cases k with
      | zero =>
          obtain rfl := Option.some.inj found
          exact ⟨blanks, s, rest, rfl, .blank blank, source⟩
      | succ k =>
          obtain ⟨front, s', rest', rfl, stretch, source'⟩ := ih found more
          refine ⟨blanks ++ (s ++ front), s', rest', by simp, ?_, by simpa using source'⟩
          exact .cons blank source stretch

/-- The source of the `k`-th token of the text, counted from zero, begins behind
`front`, and `rest` is the text from there on. -/
structure SourceBegins (text : String) (k : Nat) (front rest : List Char) : Prop where
  /-- The text is cut there. -/
  whole : text.toList = front ++ rest
  /-- The sources of the tokens before stand in front. -/
  earlier : Stretch rest [] front ((tokenize text).take k)
  /-- The source of the token comes next. -/
  source : ∃ token s more, (tokenize text)[k]? = some token ∧ token.Source front s more ∧
    rest = s ++ more

theorem exists_sourceBegins {text : String} {k : Nat} (found : (tokenize text)[k]? = some token)
    (more : token.kind ≠ .eof) : ∃ front rest, SourceBegins text k front rest := by
  obtain ⟨front, s, rest, whole, stretch, source⟩ := (tiling_tokenize text).exists_cut found more
  exact ⟨front, s ++ rest, whole, stretch, token, s, rest, found, source, rfl⟩

/-- The tokens with blanks inserted before the source of the `k`-th: those before
it are the same, and the others move with their sources. -/
theorem tokenize_inserted {text : String} {k : Nat} (begins : SourceBegins text k front rest)
    (blank : AllBlank inserted) :
    let spaced := String.ofList (front ++ (inserted ++ rest))
    (tokenize spaced).take k = (tokenize text).take k ∧
      List.Forall₂ (Token.Shifted front (front ++ inserted) rest)
        ((tokenize text).drop k) ((tokenize spaced).drop k) := by
  intro spaced
  obtain ⟨token, s, more, found, source, cut⟩ := begins.source
  have going : rest ≠ [] := by
    rw [cut]
    exact List.append_ne_nil_of_left_ne_nil source.ne_nil more
  have length : ((tokenize text).take k).length = k :=
    List.length_take_of_le (Nat.le_of_lt (List.getElem?_eq_some_iff.mp found).1)
  -- From the token on, the text is tiled once behind `front` and once behind the blanks.
  obtain ⟨tokens, tiling⟩ := exists_tiling rest front
  obtain ⟨tokens', tiling', shifted⟩ := tiling.shift (front ++ inserted)
  have plain : tokenize text = (tokenize text).take k ++ tokens :=
    Tokenizer.drain_of_tiling (begins.earlier.tiling tiling) rfl rfl rfl begins.whole
  have spread : tokenize spaced = (tokenize text).take k ++ tokens' :=
    Tokenizer.drain_of_tiling ((begins.earlier.insert blank going).tiling
      (tiling'.behind_blanks blank)) rfl rfl rfl String.toList_ofList
  have left : (tokenize text).drop k = tokens :=
    List.append_cancel_left ((List.take_append_drop k _).trans plain)
  rw [left, spread, List.take_left' length, List.drop_left' length]
  exact ⟨rfl, shifted⟩

end MetricLabels
