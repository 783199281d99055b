import MetricLabels.Proofs.Token.NumeralReads

/-!
# Tokens read one character at a time

A token is scanned off the text ahead in one go (`Cursor.scan`).  The reader here
has nothing but single reads, of which the latest can be taken back: it passes
blanks until another character is read, takes that read back where a word or a
numeral starts, and looks one character further behind `=`, `!` and a backslash.

It comes to the same tokens at the same places (`readToken_eq`), however many are
read (`turns_readToken_eq`).  What it may still take back is all that is different
behind a token, and no later read depends on that.
-/

namespace MetricLabels.Cursor

variable {c d : Cursor} {ch : Char} {cs : List Char} {start : Position}

/-- The cursor with nothing to take back. -/
def settled (c : Cursor) : Cursor := { c with last := none }

/-! ## Blanks -/

/-- Reads up to the first character that is no blank, which is read as well, and
tells where that is. -/
def readBlanks (c : Cursor) : Option Char × Position × Cursor :=
  match found : c.read with
  | (none, d) => (none, c.pos, d)
  | (some ch, d) =>
    have := length_ahead_lt_of_read found
    if isBlank ch then d.readBlanks else (some ch, c.pos, d)
termination_by c.ahead.length

/-- Reading one character after the other passes the blanks and reads one more. -/
theorem readBlanks_eq (c : Cursor) :
    c.readBlanks = ((c.skipWhile isBlank).read.1, (c.skipWhile isBlank).pos,
      (c.skipWhile isBlank).read.2) := by
  induction text : c.ahead generalizing c with
  | nil =>
      rw [readBlanks]
      split
      next found =>
        cases (read_of_nil text).symm.trans found
        simp [skipWhile, takeWhile, skip, read, text, Position.after]
      next found => cases (read_of_nil text).symm.trans found
  | cons ch cs ih =>
      rw [readBlanks]
      split
      next found => cases (read_of_cons text).symm.trans found
      next found =>
        cases (read_of_cons text).symm.trans found
        split
        next blank =>
          rw [ih _ rfl]
          simp [skipWhile, takeWhile, skip, text, blank, Position.after]
        next other => simp [skipWhile, takeWhile, skip, read, text, other, Position.after]

/-! ## Strings -/

/-- Reads the rest of quoted text, the quote at `start` and the text, latest
character first, having been read. -/
def readString (quote : Char) (start : Position) (text : List Char) (c : Cursor) :
    Token × Cursor :=
  match found : c.read with
  | (none, d) => (⟨.eof, c.pos, String.ofList text.reverse⟩, d)
  | (some ch, d) =>
    have := length_ahead_lt_of_read found
    if ch = quote then (⟨.string, start, String.ofList text.reverse⟩, d)
    else if ch = '\n' then (⟨.newline, c.pos, String.ofList text.reverse⟩, d)
    else if ch = '\\' then
      match escaped : d.read with
      | (none, e) => (⟨.badEscape, c.pos, String.ofList ['\\']⟩, e)
      | (some x, e) =>
        have := length_ahead_lt_of_read escaped
        if Quoted.isEscapable x then readString quote start (x :: text) e
        else (⟨.badEscape, c.pos, String.ofList ['\\', x]⟩, e)
    else readString quote start (ch :: text) d
termination_by c.ahead.length

theorem readString_of_nil {quote : Char} {text : List Char} (ahead : c.ahead = []) :
    readString quote start text c = (⟨.eof, c.pos, String.ofList text.reverse⟩, c.settled) := by
  rw [readString]
  split
  next found =>
    cases (read_of_nil ahead).symm.trans found
    rfl
  next found => cases (read_of_nil ahead).symm.trans found

/-- The cursor behind the next character, which can be taken back. -/
def behindNext (c : Cursor) (ch : Char) (cs : List Char) : Cursor :=
  ⟨cs, c.pos.advance ch, some (c.ahead, c.pos)⟩

theorem readString_of_cons {quote : Char} {text : List Char} (ahead : c.ahead = ch :: cs) :
    readString quote start text c =
      if ch = quote then (⟨.string, start, String.ofList text.reverse⟩, c.behindNext ch cs)
      else if ch = '\n' then (⟨.newline, c.pos, String.ofList text.reverse⟩, c.behindNext ch cs)
      else if ch = '\\' then
        match cs with
        | [] => (⟨.badEscape, c.pos, String.ofList ['\\']⟩, (c.behindNext ch cs).settled)
        | x :: xs =>
          if Quoted.isEscapable x then
            readString quote start (x :: text) ((c.behindNext ch cs).behindNext x xs)
          else (⟨.badEscape, c.pos, String.ofList ['\\', x]⟩, (c.behindNext ch cs).behindNext x xs)
      else readString quote start (ch :: text) (c.behindNext ch cs) := by
  rw [readString]
  split
  next found => cases (read_of_cons ahead).symm.trans found
  next found =>
    cases (read_of_cons ahead).symm.trans found
    split
    next => rfl
    next =>
      split
      next => rfl
      next =>
        split
        next =>
          cases cs with
          | nil => rfl
          | cons x xs => rfl
        next => rfl

theorem skip_succ (ahead : c.ahead = ch :: cs) (n : Nat) :
    c.skip (n + 1) = (c.behindNext ch cs).skip n := by
  simp [skip, behindNext, ahead, Position.after]

theorem skip_one (ahead : c.ahead = ch :: cs) : c.skip 1 = (c.behindNext ch cs).settled :=
  skip_succ ahead 0

theorem skip_eq_cutOff {s rest : List Char} (cut : c.ahead = s ++ rest) :
    c.skip s.length = (c.cutOff (s, rest)).2 := by
  rw [skip, cut, List.drop_left, List.take_left]
  rfl

/-- A token whose place is where the body of quoted text broke off. -/
theorem tokenAt_broken {l : Lexeme} {quote : Char} {front : List Char} (rest : List Char)
    (here : c.pos = start.after (quote :: front)) (broken : l.mark = front.length + 1) :
    l.tokenAt start [] (quote :: (front ++ rest)) = ⟨l.kind, c.pos, String.ofList l.text⟩ := by
  rw [Lexeme.tokenAt, broken, List.take_succ_cons, List.take_left, List.nil_append, here]

/-- The characters `piece` go from the body to what stands before it, and what they stand
for goes to the text. -/
theorem ofQuoted_cons (body : Quoted.Body) (x : Char) (text front piece : List Char) :
    Lexeme.ofQuoted ⟨text.reverse ++ (body.cons x piece.length).text,
        front.length + (body.cons x piece.length).width, (body.cons x piece.length).ending⟩ =
      Lexeme.ofQuoted ⟨(x :: text).reverse ++ body.text,
        (front ++ piece).length + body.width, body.ending⟩ := by
  simp [Quoted.Body.cons, Nat.add_comm body.width, Nat.add_assoc]

/-- The place moves with what stands before it. -/
theorem behindNext_pos {front : List Char} {quote : Char}
    (here : c.pos = start.after (quote :: front)) (ch : Char) (cs : List Char) :
    (c.behindNext ch cs).pos = start.after (quote :: (front ++ [ch])) := by
  rw [← List.cons_append, Position.after_append, ← here]
  rfl

/-- Behind the quote and the characters `front`, which stand for `text`, the body
goes on as the text ahead says. -/
theorem readString_eq (quote : Char) (start : Position) (front text : List Char) (c : Cursor)
    (here : c.pos = start.after (quote :: front)) :
    (readString quote start text c).1 =
        (Lexeme.ofQuoted ⟨text.reverse ++ (Quoted.scan quote c.ahead).text,
          front.length + (Quoted.scan quote c.ahead).width,
          (Quoted.scan quote c.ahead).ending⟩).tokenAt start [] (quote :: (front ++ c.ahead)) ∧
      (readString quote start text c).2.settled = c.skip (Quoted.scan quote c.ahead).size := by
  generalize ahead : c.ahead = cs
  -- The cases are those of the scanner: four ways to end, an escape, a refused escape, and
  -- a character that stands for itself.
  fun_induction Quoted.scan quote cs generalizing c text front with
  | case1 =>
      rw [readString_of_nil ahead, tokenAt_broken _ here rfl, List.append_nil]
      exact ⟨rfl, rfl⟩
  | case2 cs =>
      rw [readString_of_cons ahead, if_pos rfl, List.append_nil]
      exact ⟨rfl, (skip_one ahead).symm⟩
  | case3 cs notQuote =>
      rw [readString_of_cons ahead, if_neg notQuote, if_pos rfl, tokenAt_broken _ here rfl,
        List.append_nil]
      exact ⟨rfl, (skip_one ahead).symm⟩
  | case4 notQuote _ =>
      rw [readString_of_cons ahead, if_neg notQuote, if_neg (by decide), if_pos rfl,
        tokenAt_broken _ here rfl]
      exact ⟨rfl, (skip_one ahead).symm⟩
  | case5 x cs escapable notQuote _ ih =>
      rw [readString_of_cons ahead, if_neg notQuote, if_neg (by decide), if_pos rfl]
      simp only [if_pos escapable]
      have moved := behindNext_pos (behindNext_pos here '\\' (x :: cs)) x cs
      rw [List.append_assoc] at moved
      obtain ⟨token, rest⟩ := ih (front ++ ['\\', x]) (x :: text) _ moved rfl
      rw [← ofQuoted_cons, List.append_assoc] at token
      rw [Quoted.Body.size_cons, skip_succ ahead, skip_succ rfl]
      exact ⟨token, rest⟩
  | case6 x cs refused notQuote _ =>
      rw [readString_of_cons ahead, if_neg notQuote, if_neg (by decide), if_pos rfl,
        tokenAt_broken _ here rfl]
      simp only [if_neg refused]
      exact ⟨rfl, ((skip_succ ahead 1).trans (skip_one rfl)).symm⟩
  | case7 ch cs notQuote notFeed notBackslash ih =>
      rw [readString_of_cons ahead, if_neg notQuote, if_neg notFeed, if_neg notBackslash]
      obtain ⟨token, rest⟩ := ih (front ++ [ch]) (ch :: text) _ (behindNext_pos here ch cs) rfl
      rw [← ofQuoted_cons, List.append_assoc] at token
      rw [Quoted.Body.size_cons, skip_succ ahead]
      exact ⟨token, rest⟩

/-! ## Tokens -/

/-- Reads the rest of a token that is not text, its first character having been
read. -/
def readSymbol (ch : Char) (pos : Position) (c : Cursor) : Token × Cursor :=
  match ch with
  | '=' =>
    match c.readOrUnread (· == '~') with
    | (some _, d) => (⟨.eqRegexp, pos, ""⟩, d)
    | (none, d) => (⟨.eq, pos, ""⟩, d)
  | '!' =>
    match c.read with
    | (some '=', d) => (⟨.neq, pos, ""⟩, d)
    | (some '~', d) => (⟨.neqRegexp, pos, ""⟩, d)
    | (_, d) => (⟨.invalid, pos, "!"⟩, d.unread)
  | '\x7b' => (⟨.lbrace, pos, ""⟩, c)
  | '\x7d' => (⟨.rbrace, pos, ""⟩, c)
  | '(' => (⟨.lparen, pos, ""⟩, c)
  | ')' => (⟨.rparen, pos, ""⟩, c)
  | ',' => (⟨.comma, pos, ""⟩, c)
  | other => (⟨.invalid, pos, String.ofList [other]⟩, c)

/-- The rest of a symbol is read up to its end, as what its first character and the next
one make of it. -/
def ReadsSymbol (ch : Char) (pos : Position) (c : Cursor) : Prop :=
  (readSymbol ch pos c).1 =
      ⟨(Lexeme.symbol ch c.ahead.head?).kind, pos,
        String.ofList (Lexeme.symbol ch c.ahead.head?).text⟩ ∧
    (readSymbol ch pos c).2.settled = c.skip ((Lexeme.symbol ch c.ahead.head?).size - 1)

/-- Behind an equal sign a tilde is read, and anything else is taken back. -/
theorem readsSymbol_equal (pos : Position) (c : Cursor) : ReadsSymbol '=' pos c := by
  rw [ReadsSymbol, readSymbol]
  rcases Numeral.starts_or_stops (· == '~') c.ahead with ⟨x, cs, ahead, tilde⟩ | stops
  · obtain rfl : x = '~' := beq_iff_eq.mp tilde
    rw [readOrUnread_of_pos (p := (· == '~')) ahead tilde, ahead]
    exact ⟨rfl, (skip_one ahead).symm⟩
  · have alone : Lexeme.symbol '=' c.ahead.head? = Lexeme.bare .eq 1 := by
      unfold Lexeme.symbol
      split <;> simp_all [Numeral.Stops]
    rw [readOrUnread_of_stops stops, alone]
    exact ⟨rfl, rfl⟩

/-- Behind an exclamation mark an equal sign or a tilde is read, and anything else is taken
back. -/
theorem readsSymbol_exclamation (pos : Position) (c : Cursor) : ReadsSymbol '!' pos c := by
  rw [ReadsSymbol, readSymbol]
  cases ahead : c.ahead with
  | nil =>
      rw [read_of_nil ahead]
      exact ⟨rfl, rfl⟩
  | cons x xs =>
      rw [read_of_cons ahead]
      split
      next same =>
        cases same
        exact ⟨rfl, (skip_one ahead).symm⟩
      next same =>
        cases same
        exact ⟨rfl, (skip_one ahead).symm⟩
      next notEqual notTilde same =>
        cases same
        have alone : Lexeme.symbol '!' (x :: xs).head? = Lexeme.plain .invalid ['!'] := by
          unfold Lexeme.symbol
          split <;> simp_all
        rw [alone]
        exact ⟨rfl, rfl⟩

theorem readsSymbol (ch : Char) (pos : Position) (c : Cursor) : ReadsSymbol ch pos c := by
  by_cases equal : ch = '='
  · exact equal ▸ readsSymbol_equal pos c
  by_cases exclamation : ch = '!'
  · exact exclamation ▸ readsSymbol_exclamation pos c
  -- No other symbol has a second character, so nothing is read.
  unfold ReadsSymbol readSymbol
  split
  next => exact absurd rfl equal
  next => exact absurd rfl exclamation
  next => exact ⟨rfl, rfl⟩
  next => exact ⟨rfl, rfl⟩
  next => exact ⟨rfl, rfl⟩
  next => exact ⟨rfl, rfl⟩
  next => exact ⟨rfl, rfl⟩
  next =>
    have alone : Lexeme.symbol ch c.ahead.head? = Lexeme.plain .invalid [ch] := by
      unfold Lexeme.symbol
      split <;> simp_all
    rw [alone]
    exact ⟨rfl, rfl⟩

/-- Reads a token.  The first character that is no blank is read, and that is taken
back where a numeral or a word starts. -/
def readToken (c : Cursor) : Token × Cursor :=
  match c.readBlanks with
  | (none, pos, c) => (⟨.eof, pos, ""⟩, c)
  | (some ch, pos, c) =>
    if startsNumeral ch then
      let (text, c) := c.unread.readNumeral
      (⟨.number, pos, String.ofList text⟩, c)
    else if isWord ch then
      let (text, c) := c.unread.readRun isWord
      (⟨.ident, pos, String.ofList text⟩, c)
    else if Quoted.isQuote ch then readString ch pos [] c
    else readSymbol ch pos c

/-- Single reads come to the token that is scanned, and to the place behind it. -/
theorem readToken_eq (c : Cursor) :
    c.readToken.1 = c.scan.1 ∧ c.readToken.2.settled = c.scan.2 := by
  rw [readToken, readBlanks_eq, scan]
  generalize spaced : c.skipWhile isBlank = d
  have settled : d.settled = d := by
    rw [← spaced]
    rfl
  cases ahead : d.ahead with
  | nil =>
      rw [read_of_nil ahead]
      exact ⟨rfl, rfl⟩
  | cons ch cs =>
      rw [read_of_cons ahead]
      -- The character that was read too far is taken back, and nothing has happened.
      have back : (⟨cs, d.pos.advance ch, some (d.ahead, d.pos)⟩ : Cursor).unread = d := settled
      simp only [Lexeme.first, back]
      split
      next =>
        rw [readNumeral_eq, ← ahead]
        exact ⟨rfl, (skip_eq_cutOff (Numeral.split_append d.ahead).symm).symm⟩
      next =>
        split
        next =>
          rw [readRun_eq, ← ahead]
          exact ⟨rfl, (skip_eq_cutOff List.takeWhile_append_dropWhile.symm).symm⟩
        next =>
          split
          next =>
            have read := readString_eq ch d.pos [] [] (d.behindNext ch cs) rfl
            rw [List.reverse_nil, List.nil_append, List.length_nil, Nat.zero_add] at read
            rw [pos_skip, congrArg (List.take _) ahead, Lexeme.size_ofQuoted, skip_succ ahead]
            exact read
          next =>
            obtain ⟨n, size⟩ := Nat.exists_eq_succ_of_ne_zero
              (Nat.ne_of_gt (Lexeme.size_symbol_pos ch cs.head?))
            have read := readsSymbol ch d.pos (d.behindNext ch cs)
            rw [ReadsSymbol, show (d.behindNext ch cs).ahead = cs from rfl, size] at read
            rw [size, Lexeme.mark_symbol, skip_succ ahead]
            exact read

/-! ## Sequences of tokens -/

/-- What the reader, or the scanner, gives in `n` turns. -/
def turns (step : Cursor → Token × Cursor) : ℕ → Cursor → List Token
  | 0, _ => []
  | n + 1, c => (step c).1 :: turns step n (step c).2

/-- Nothing that is scanned depends on what can be taken back. -/
theorem turns_scan_settled (n : ℕ) (c : Cursor) : turns scan n c.settled = turns scan n c := by
  cases n with
  | zero => rfl
  | succ n => rfl

/-- However many tokens are read, they are the ones that are scanned. -/
theorem turns_readToken_eq (n : ℕ) (c : Cursor) : turns readToken n c = turns scan n c := by
  induction n generalizing c with
  | zero => rfl
  | succ n ih =>
      obtain ⟨token, rest⟩ := readToken_eq c
      rw [turns, turns, token, ih, ← rest, turns_scan_settled]

end MetricLabels.Cursor
