import MetricLabels.Proofs.Token.Spelling
import MetricLabels.Proofs.Token.Stream

/-!
# Tokens tile the text

The tokens of a text stand in it one behind the other, with blanks between them
at most.  `Tiles p text w q rest` says so of the tokens `w` in `text`, the
first character of which is at the position `p`.  What is left is `rest`, at the
position `q`.

Taking tokens off a tokenizer is the same as finding them in its text
(`takes_of_tiles`, `tiles_of_takes`).  There are two ways to come to an end:
only blanks are left (`AllBlank`), or blanks and a quote that never closes
(`OpensQuote`).  `next_eq_eof_iff` says that there is no third.
-/

namespace MetricLabels

/-- There are no characters but blanks. -/
def AllBlank (text : List Char) : Prop := ∀ c ∈ text, isBlank c = true

/-- Behind blanks, a quote opens and does not close. -/
def OpensQuote (text : List Char) : Prop :=
  ∃ blanks quote body contents, AllBlank blanks ∧ Quoted.isQuote quote = true ∧
    Quoted.Written quote body contents ∧ text = blanks ++ quote :: body

variable {c : Cursor} {p q : Position} {l : Lexeme} {blanks s rest text : List Char}

theorem AllBlank.nil : AllBlank [] := fun _ member => absurd member List.not_mem_nil

/-- An open quote is no blank. -/
theorem OpensQuote.not_allBlank (opens : OpensQuote text) : ¬AllBlank text := by
  rintro blank
  obtain ⟨blanks, quote, body, _, _, quoted, _, rfl⟩ := opens
  have notBlank := (Lexeme.other_classes_of_isQuote quoted).2.2
  have isBlank := blank quote (List.mem_append_right _ (.head _))
  rw [notBlank] at isBlank
  cases isBlank

/-! ## The characters of a lexeme -/

namespace Lexeme

theorem Spells.exists_cons (spelled : Spells l s rest) :
    ∃ c cs, s = c :: cs ∧ isBlank c = false := by
  cases spelled with
  | numeral numeral _ => exact ⟨_, _, rfl, isBlank_of_startsNumeral numeral⟩
  | word _ word _ => exact ⟨_, _, rfl, isBlank_of_isWord (word _ (.head _))⟩
  | quoted quoted _ _ => exact ⟨_, _, rfl, (other_classes_of_isQuote quoted).2.2⟩
  | sign kind sign _ => cases kind <;> cases sign <;> exact ⟨_, _, rfl, by decide⟩
  | stray notBlank _ _ _ _ => exact ⟨_, _, rfl, notBlank⟩

theorem mark_ofQuoted_le (body : Quoted.Body) : (ofQuoted body).mark ≤ (ofQuoted body).size := by
  unfold ofQuoted
  split <;> simp [Quoted.Body.size, *]

/-- The place that a token reports is in it or at its end. -/
theorem Spells.mark_le (spelled : Spells l s rest) : l.mark ≤ s.length := by
  rw [spelled.length_eq]
  cases spelled with
  | quoted => exact mark_ofQuoted_le _
  | _ => exact Nat.zero_le _

/-- Only a quote that does not close is a lexeme of the kind of the end. -/
theorem Spells.of_eof (spelled : Spells l s rest) (eof : l.kind = .eof) :
    ∃ quote body contents, Quoted.isQuote quote = true ∧ Quoted.Written quote body contents ∧
      s = quote :: body ∧ rest = [] := by
  cases spelled with
  | @quoted quote body contents _ ending quoted written leaves =>
      cases ending with
      | unterminated =>
          exact ⟨quote, body, contents, quoted, written, congrArg _ (List.append_nil _), leaves⟩
      | _ => cases eof
  | sign kind sign _ =>
      obtain rfl : kind = .eof := eof
      cases sign
  | _ => cases eof

/-- A quote that does not close is spelled to the end of the text. -/
theorem spells_open {quote : Char} {body contents : List Char}
    (quoted : Quoted.isQuote quote = true) (written : Quoted.Written quote body contents) :
    Spells (ofQuoted ⟨contents, body.length, .unterminated⟩) (quote :: body) [] := by
  have spelled : Spells (ofQuoted ⟨contents, body.length, .unterminated⟩)
      (quote :: (body ++ Quoted.Ending.source quote .unterminated)) [] :=
    .quoted quoted written rfl
  simpa [Quoted.Ending.source] using spelled

/-- The token of a lexeme that the characters `s` spell, behind blanks from the
position `p` on. -/
def tokenAt (l : Lexeme) (p : Position) (blanks s : List Char) : Token :=
  ⟨l.kind, p.after (blanks ++ s.take l.mark), String.ofList l.text⟩

end Lexeme

/-! ## Scanning one token -/

theorem exists_blanks (text : List Char) :
    ∃ blanks rest, text = blanks ++ rest ∧ AllBlank blanks ∧
      ∀ c ∈ rest.head?, isBlank c = false := by
  refine ⟨_, text.dropWhile isBlank, List.takeWhile_append_dropWhile.symm, ?_,
    Lexeme.stops_dropWhile isBlank text⟩
  exact fun c member => List.all_eq_true.mp List.all_takeWhile c member

/-- Behind the blanks that a text starts with, there is nothing or a lexeme. -/
theorem allBlank_or_spells (text : List Char) :
    AllBlank text ∨ ∃ blanks s rest l, AllBlank blanks ∧ Lexeme.Spells l s rest ∧
      text = blanks ++ (s ++ rest) := by
  obtain ⟨blanks, rest, rfl, blank, stops⟩ := exists_blanks text
  cases rest with
  | nil =>
      rw [List.append_nil]
      exact .inl blank
  | cons c cs =>
      obtain ⟨s, rest, cut, spelled⟩ := Lexeme.exists_spells cs (stops c rfl)
      exact .inr ⟨blanks, s, rest, _, blank, spelled, by rw [cut]⟩

namespace Cursor

/-- All blanks in front are skipped. -/
theorem skipWhile_isBlank (ahead : c.ahead = blanks ++ rest) (blank : AllBlank blanks)
    (stops : ∀ x ∈ rest.head?, isBlank x = false) :
    c.skipWhile isBlank = ⟨rest, c.pos.after blanks, none⟩ := by
  have run : c.ahead.takeWhile isBlank = blanks := by
    rw [ahead, Lexeme.takeWhile_append_of_stops blank stops]
  show c.skip (c.ahead.takeWhile isBlank).length = _
  rw [run, skip, ahead, List.drop_left, List.take_left]

/-- Behind blanks, the lexeme that is spelled there is scanned. -/
theorem scan_spelled (ahead : c.ahead = blanks ++ (s ++ rest)) (blank : AllBlank blanks)
    (spelled : l.Spells s rest) :
    c.scan = (l.tokenAt c.pos blanks s, ⟨rest, c.pos.after (blanks ++ s), none⟩) := by
  obtain ⟨x, xs, rfl, notBlank⟩ := spelled.exists_cons
  have skipped := skipWhile_isBlank ahead blank (by simpa using notBlank)
  rw [scan, skipped]
  simp only [spelled.first_eq, Lexeme.tokenAt, skip, ← spelled.length_eq, List.drop_left,
    List.take_left, List.take_append_of_le_length spelled.mark_le, Position.after_append]

/-- The lexeme that is spelled right ahead is scanned. -/
theorem scan_of_spells (ahead : c.ahead = s ++ rest) (spelled : l.Spells s rest) :
    c.scan = (l.tokenAt c.pos [] s, ⟨rest, c.pos.after s, none⟩) := by
  have unblanked : c.ahead = [] ++ (s ++ rest) := ahead
  exact scan_spelled unblanked .nil spelled

theorem scan_allBlank (blank : AllBlank c.ahead) : c.scan.1.kind = .eof := by
  have skipped := skipWhile_isBlank (List.append_nil c.ahead).symm blank (by simp)
  rw [scan, skipped]
  rfl

/-- The end is scanned where only blanks are left, or a quote that does not
close. -/
theorem scan_eq_eof_iff : c.scan.1.kind = .eof ↔ AllBlank c.ahead ∨ OpensQuote c.ahead := by
  constructor
  · intro eof
    rcases allBlank_or_spells c.ahead with blank | ⟨blanks, s, rest, l, blank, spelled, ahead⟩
    · exact .inl blank
    · rw [scan_spelled ahead blank spelled] at eof
      obtain ⟨quote, body, contents, quoted, written, rfl, rfl⟩ := spelled.of_eof eof
      exact .inr ⟨blanks, quote, body, contents, blank, quoted, written, by simpa using ahead⟩
  · rintro (blank | ⟨blanks, quote, body, contents, blank, quoted, written, ahead⟩)
    · exact scan_allBlank blank
    · rw [scan_spelled (by simpa using ahead) blank (Lexeme.spells_open quoted written)]
      rfl

end Cursor

/-! ## Tiles -/

/-- The tokens stand in the text one behind the other, with blanks before each at
most.  None is an end of the text. -/
inductive Tiles : Position → List Char → List Token → Position → List Char → Prop where
  | nil (p : Position) (rest : List Char) : Tiles p rest [] p rest
  | cons {p q : Position} {l : Lexeme} {blanks s rest left : List Char} {w : List Token} :
      AllBlank blanks → l.Spells s rest → l.kind ≠ .eof →
      Tiles (p.after (blanks ++ s)) rest w q left →
      Tiles p (blanks ++ (s ++ rest)) (l.tokenAt p blanks s :: w) q left

/-- A lexeme without blanks before it is a tile. -/
theorem Tiles.single (p : Position) (spelled : l.Spells s rest) (more : l.kind ≠ .eof) :
    Tiles p (s ++ rest) [l.tokenAt p [] s] (p.after s) rest := .cons .nil spelled more (.nil _ _)

/-- Tiles go on with tiles. -/
theorem Tiles.append {r : Position} {left : List Char} {v w : List Token}
    (first : Tiles p text v q rest) (second : Tiles q rest w r left) :
    Tiles p text (v ++ w) r left := by
  induction first with
  | nil => exact second
  | cons blank spelled more _ ih => exact .cons blank spelled more (ih second)

/-- What is left is at the place behind what is not left. -/
theorem Tiles.exists_consumed {w : List Token} (tiles : Tiles p text w q rest) :
    ∃ consumed, text = consumed ++ rest ∧ q = p.after consumed := by
  induction tiles with
  | nil => exact ⟨[], rfl, rfl⟩
  | @cons _ _ _ blanks s _ _ _ _ _ _ _ ih =>
      obtain ⟨consumed, rfl, rfl⟩ := ih
      exact ⟨blanks ++ s ++ consumed, by simp, by simp⟩

theorem Tiles.eq_after {w : List Token} (tiles : Tiles p (s ++ rest) w q rest) :
    q = p.after s := by
  obtain ⟨consumed, same, rfl⟩ := tiles.exists_consumed
  rw [List.append_cancel_right same]

/-- No tile is an end of the text. -/
theorem Tiles.ne_eof {w : List Token} (tiles : Tiles p text w q rest) :
    ∀ token ∈ w, token.kind ≠ .eof := by
  induction tiles with
  | nil => exact fun _ member => absurd member List.not_mem_nil
  | cons _ _ more _ ih =>
      intro token member
      rcases List.mem_cons.mp member with rfl | member
      · exact more
      · exact ih token member

namespace Tokenizer

variable {t u : Tokenizer} {w : List Token}

theorem next_fresh (fresh : t.peeked = none) :
    t.next = (t.cursor.scan.1, { t with cursor := t.cursor.scan.2 }) := by
  simp [next, fresh]

/-- A tokenizer gives the end where only blanks are left, or a quote that does
not close. -/
theorem next_eq_eof_iff (fresh : t.peeked = none) :
    t.next.1.kind = .eof ↔ AllBlank t.cursor.ahead ∨ OpensQuote t.cursor.ahead := by
  rw [next_fresh fresh]
  exact Cursor.scan_eq_eof_iff

/-- The tokens that stand in the text are taken. -/
theorem takes_of_tiles (tiles : Tiles p text w q rest) : ∀ {t : Tokenizer},
    t.peeked = none → t.cursor.pos = p → t.cursor.ahead = text →
      ∃ u, t.Takes w u ∧ u.peeked = none ∧ u.cursor.pos = q ∧ u.cursor.ahead = rest := by
  induction tiles with
  | nil => exact fun fresh pos ahead => ⟨_, .refl _, fresh, pos, ahead⟩
  | cons blank spelled _ _ ih =>
      rintro t fresh rfl ahead
      have scanned := next_fresh fresh
      rw [Cursor.scan_spelled ahead blank spelled] at scanned
      obtain ⟨u, taken, rest⟩ := ih (t := t.next.2) (by rw [scanned]; exact fresh)
        (by rw [scanned]) (by rw [scanned])
      exact ⟨u, Takes.cons_iff.mpr ⟨by rw [scanned], taken⟩, rest⟩

/-- The tokens that are taken stand in the text. -/
theorem tiles_of_takes (taken : t.Takes w u) (fresh : t.peeked = none)
    (more : ∀ token ∈ w, token.kind ≠ .eof) :
    Tiles t.cursor.pos t.cursor.ahead w u.cursor.pos u.cursor.ahead ∧ u.peeked = none := by
  induction taken with
  | refl => exact ⟨.nil _ _, fresh⟩
  | @next t u w _ ih =>
      have going := more _ (.head _)
      rcases allBlank_or_spells t.cursor.ahead with
        blank | ⟨blanks, s, rest, l, blank, spelled, ahead⟩
      · exact absurd ((next_eq_eof_iff fresh).mpr (.inl blank)) going
      · have scanned := next_fresh fresh
        rw [Cursor.scan_spelled ahead blank spelled] at scanned
        obtain ⟨tiles, fresh'⟩ := ih (by rw [scanned]; exact fresh)
          fun token member => more token (.tail _ member)
        rw [scanned] at going tiles ⊢
        rw [ahead]
        exact ⟨.cons blank spelled going tiles, fresh'⟩

end Tokenizer

/-- Where nothing but an end is left behind the tokens, they are all the tokens,
and what is left is determined. -/
theorem Tiles.unique {q' : Position} {v w : List Token} {rest' : List Char}
    (tiles : Tiles p text w q rest) (tiles' : Tiles p text v q' rest')
    (ends : AllBlank rest ∨ OpensQuote rest) (ends' : AllBlank rest' ∨ OpensQuote rest') :
    w = v ∧ rest = rest' := by
  -- Both are what one tokenizer takes.
  let t : Tokenizer := ⟨⟨text, p, none⟩, none, false⟩
  obtain ⟨u, taken, fresh, _, rfl⟩ := Tokenizer.takes_of_tiles tiles (t := t) rfl rfl rfl
  obtain ⟨u', taken', fresh', _, rfl⟩ := Tokenizer.takes_of_tiles tiles' (t := t) rfl rfl rfl
  have eof := (Tokenizer.next_eq_eof_iff fresh).mpr ends
  have eof' := (Tokenizer.next_eq_eof_iff fresh').mpr ends'
  obtain ⟨rfl, rfl⟩ := taken.unique taken' tiles.ne_eof tiles'.ne_eof eof eof'
  exact ⟨rfl, rfl⟩

end MetricLabels
