import MetricLabels.ParseError
import MetricLabels.Text.Cursor
import MetricLabels.Token.Lexeme

/-!
# The tokenizer

A tokenizer scans tokens from a cursor when they are asked for, and keeps at
most one that was only looked at.  Behind the end of the text it goes on to give
the end.  As an iterator (`next?`) it gives the end once and then nothing.  Only
the iterator keeps and obeys that rule.

Whoever consumes tokens in a loop needs a bound on what is left.  `remaining` is
that bound: looking at a token does not raise it (`remaining_peek_le`), and
consuming one other than the end lowers it (`remaining_next_lt`).
-/

namespace MetricLabels

/-- Scans the token behind any blanks ahead. -/
def Cursor.scan (c : Cursor) : Token × Cursor :=
  let c := c.skipWhile isBlank
  let lexeme := Lexeme.first c.ahead
  (⟨lexeme.kind, (c.skip lexeme.mark).pos, String.ofList lexeme.text⟩, c.skip lexeme.size)

/-- A source of tokens. -/
structure Tokenizer where
  /-- The text that is not scanned yet. -/
  cursor : Cursor
  /-- A token that was scanned and not consumed. -/
  peeked : Option Token
  /-- Whether the iterator has given out the end of the text. -/
  done : Bool
deriving Repr, DecidableEq

namespace Tokenizer

/-- A tokenizer at the start of a text. -/
def ofString (text : String) : Tokenizer := ⟨.ofString text, none, false⟩

/-- The next token, which is not consumed. -/
def peek (t : Tokenizer) : Token × Tokenizer :=
  match t.peeked with
  | some token => (token, t)
  | none =>
    let (token, cursor) := t.cursor.scan
    (token, { t with cursor, peeked := some token })

/-- Consumes the next token. -/
def next (t : Tokenizer) : Token × Tokenizer :=
  match t.peeked with
  | some token => (token, { t with peeked := none })
  | none =>
    let (token, cursor) := t.cursor.scan
    (token, { t with cursor })

/-- Consumes the next token, which is an error if it has another kind. -/
def expect (t : Tokenizer) (kind : Token.Kind) : Except ParseError Token × Tokenizer :=
  let (token, t) := t.next
  if token.kind = kind then (.ok token, t)
  else (.error (.unexpected (.token kind) token.kind token.pos), t)

/-- The next token of the iterator: every token up to the first end of the text,
and nothing behind that. -/
def next? (t : Tokenizer) : Option Token × Tokenizer :=
  if t.done then (none, t)
  else
    let (token, t) := t.next
    (some token, { t with done := token.kind == .eof })

/-! ## What is left to consume -/

/-- A bound on the number of tokens left before the end of the text. -/
def remaining (t : Tokenizer) : Nat :=
  t.cursor.ahead.length +
    match t.peeked with
    | some token => if token.kind = .eof then 0 else 1
    | none => 0

theorem length_ahead_scan_le (c : Cursor) : c.scan.2.ahead.length ≤ c.ahead.length := by
  have blanks := (List.dropWhile_sublist (l := c.ahead) isBlank).length_le
  simp only [Cursor.scan, Cursor.ahead_skip, Cursor.ahead_skipWhile, List.length_drop]
  omega

/-- A token before the end takes characters. -/
theorem length_ahead_scan_lt (c : Cursor) (h : c.scan.1.kind ≠ .eof) :
    c.scan.2.ahead.length < c.ahead.length := by
  have blanks := (List.dropWhile_sublist (l := c.ahead) isBlank).length_le
  simp only [Cursor.scan, Cursor.ahead_skip, Cursor.ahead_skipWhile, List.length_drop] at h ⊢
  cases rest : c.ahead.dropWhile isBlank with
  | nil => simp [rest, Lexeme.first, Lexeme.bare] at h
  | cons ch chs =>
    have size := Lexeme.size_first_pos ch chs
    simp only [rest, List.length_cons] at blanks ⊢
    omega

theorem remaining_peek_le (t : Tokenizer) : t.peek.2.remaining ≤ t.remaining := by
  unfold peek
  split
  next => exact Nat.le_refl _
  next fresh =>
    have short := length_ahead_scan_le t.cursor
    have shorter := length_ahead_scan_lt t.cursor
    simp only [remaining, fresh]
    split <;> grind

theorem remaining_next_le (t : Tokenizer) : t.next.2.remaining ≤ t.remaining := by
  unfold next
  split
  next => simp [remaining]
  next fresh =>
    have short := length_ahead_scan_le t.cursor
    simpa [remaining, fresh] using short

/-- A token before the end is one less to come. -/
theorem remaining_next_lt (t : Tokenizer) (h : t.next.1.kind ≠ .eof) :
    t.next.2.remaining < t.remaining := by
  unfold next at h ⊢
  split at h
  next token peeked => simp_all [remaining]
  next fresh =>
    have shorter := length_ahead_scan_lt t.cursor h
    simpa [remaining, fresh] using shorter

/-! ## All tokens -/

/-- The bound for the iterator, which also gives out the end of the text. -/
def turns (t : Tokenizer) : Nat := if t.done then 0 else t.remaining + 1

theorem turns_lt_of_next? {t t' : Tokenizer} {token : Token}
    (h : t.next? = (some token, t')) : t'.turns < t.turns := by
  unfold next? at h
  split at h
  next => simp at h
  next going =>
    have shorter := remaining_next_lt t
    simp only [Prod.mk.injEq, Option.some.injEq] at h
    obtain ⟨rfl, rfl⟩ := h
    by_cases eof : t.next.1.kind = .eof
    · simp [turns, going, eof]
    · simpa [turns, going, eof, remaining] using shorter eof

/-- The tokens that the iterator still gives, and the tokenizer behind them. -/
def drain (t : Tokenizer) : List Token × Tokenizer :=
  match h : t.next? with
  | (none, last) => ([], last)
  | (some token, rest) =>
    have := turns_lt_of_next? h
    let (tokens, last) := rest.drain
    (token :: tokens, last)
termination_by t.turns

end Tokenizer

/-- The tokens of a text, up to and including the first end of the text. -/
def tokenize (text : String) : List Token := (Tokenizer.ofString text).drain.1

end MetricLabels
