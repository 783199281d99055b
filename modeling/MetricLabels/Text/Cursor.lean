import MetricLabels.Text.Position

/-!
# The cursor

A cursor reads a text from left to right.  It holds what is still ahead, the
position of the first character there, and the state before the latest read,
which `unread` restores.  One read can be taken back, and only once: nothing is
kept before the first read, after a read at the end of the text, or behind
`skip` and `takeWhile`, which settle what they pass over.
-/

namespace MetricLabels

/-- A reader of a text, with one read that can be taken back. -/
structure Cursor where
  /-- The characters not read yet. -/
  ahead : List Char
  /-- The position of the first of them, or of the end of the text. -/
  pos : Position
  /-- What was ahead, and where, before the read that `unread` takes back. -/
  last : Option (List Char × Position)
deriving Repr, DecidableEq

namespace Cursor

/-- A cursor at the start of a text. -/
def ofString (text : String) : Cursor := ⟨text.toList, .start, none⟩

/-- The next character, which stays ahead. -/
def peek (c : Cursor) : Option Char := c.ahead.head?

/-- The next two characters, which stay ahead. -/
def peek2 (c : Cursor) : Option Char × Option Char := (c.peek, c.ahead[1]?)

/-- Reads the next character. -/
def read (c : Cursor) : Option Char × Cursor :=
  match c.ahead with
  | [] => (none, { c with last := none })
  | ch :: rest => (some ch, ⟨rest, c.pos.advance ch, some (c.ahead, c.pos)⟩)

/-- Takes the latest read back, if there is one to take back. -/
def unread (c : Cursor) : Cursor :=
  match c.last with
  | none => c
  | some (ahead, pos) => ⟨ahead, pos, none⟩

/-- The cursor behind the next `n` characters. -/
def skip (c : Cursor) (n : Nat) : Cursor :=
  ⟨c.ahead.drop n, c.pos.after (c.ahead.take n), none⟩

/-- Reads the longest run of characters that satisfy `p`. -/
def takeWhile (p : Char → Bool) (c : Cursor) : List Char × Cursor :=
  let run := c.ahead.takeWhile p
  (run, c.skip run.length)

/-- The cursor behind the longest run of characters that satisfy `p`. -/
def skipWhile (p : Char → Bool) (c : Cursor) : Cursor := (c.takeWhile p).2

/-! ## What lies ahead after each step -/

@[simp] theorem ahead_skip (c : Cursor) (n : Nat) : (c.skip n).ahead = c.ahead.drop n := rfl

@[simp] theorem pos_skip (c : Cursor) (n : Nat) :
    (c.skip n).pos = c.pos.after (c.ahead.take n) := rfl

@[simp] theorem ahead_takeWhile (p : Char → Bool) (c : Cursor) :
    (c.takeWhile p).2.ahead = c.ahead.dropWhile p := by
  have h := congrArg (List.drop (c.ahead.takeWhile p).length)
    (List.takeWhile_append_dropWhile (p := p) (l := c.ahead))
  rw [List.drop_left] at h
  exact h.symm

@[simp] theorem ahead_skipWhile (p : Char → Bool) (c : Cursor) :
    (c.skipWhile p).ahead = c.ahead.dropWhile p := ahead_takeWhile p c

/-- At the end of the text no character is next. -/
theorem peek2_of_nil {c : Cursor} (ahead : c.ahead = []) : c.peek2 = (none, none) := by
  rw [peek2, peek, ahead]
  rfl

/-- Elsewhere the next character is there, with the one behind it if there is one. -/
theorem peek2_of_cons {c : Cursor} {ch : Char} {rest : List Char} (ahead : c.ahead = ch :: rest) :
    c.peek2 = (some ch, rest.head?) := by
  rw [peek2, peek, ahead, List.getElem?_cons_succ, ← List.head?_eq_getElem?]
  rfl

/-- At the end of the text nothing is read, and nothing is left to take back. -/
theorem read_of_nil {c : Cursor} (ahead : c.ahead = []) :
    c.read = (none, { c with last := none }) := by
  rw [read, ahead]

/-- A read passes the next character and keeps the place before it. -/
theorem read_of_cons {c : Cursor} {ch : Char} {rest : List Char} (ahead : c.ahead = ch :: rest) :
    c.read = (some ch, ⟨rest, c.pos.advance ch, some (c.ahead, c.pos)⟩) := by
  rw [read, ahead]

/-- A character that was read is no longer ahead. -/
theorem length_ahead_lt_of_read {c d : Cursor} {ch : Char} (found : c.read = (some ch, d)) :
    d.ahead.length < c.ahead.length := by
  cases ahead : c.ahead with
  | nil => cases (read_of_nil ahead).symm.trans found
  | cons next rest =>
      cases (read_of_cons ahead).symm.trans found
      exact Nat.lt_succ_self _

theorem length_ahead_read_lt {c : Cursor} {ch : Char} (next : c.peek = some ch) :
    c.read.2.ahead.length < c.ahead.length := by
  obtain ⟨rest, ahead⟩ := List.head?_eq_some_iff.mp next
  rw [read_of_cons ahead, ahead]
  exact Nat.lt_succ_self _

/-- A read that returned a character is taken back in full. -/
theorem unread_read (c : Cursor) (h : c.ahead ≠ []) :
    c.read.2.unread = { c with last := none } := by
  cases hc : c.ahead with
  | nil => exact absurd hc h
  | cons ch rest => simp [read, unread, hc]

end Cursor

end MetricLabels
