import MetricLabels.Proofs.Text.LongestNumeral
import MetricLabels.Proofs.Token.Tiles

/-!
# Numerals read one character at a time

A numeral is cut off the text ahead in one go.  `Cursor.readNumeral` finds it by
single reads.  Whether a part of it comes next is seen only when a character is
read, and the read is taken back if the character is no part of it, or if there
is none.  No more than one read can be taken back, so each part has to leave the
cursor where the next part starts.

It does, and with nothing to take back (`readRun_eq`, `readFraction_eq`,
`readExponent_eq`).  So the numeral read is the one cut off
(`readNumeral_eq`), which is the longest that the text starts with, and it is
what the tokenizer takes for a number (`scan_longest_numeral`).
-/

namespace MetricLabels.Cursor

/-! ## Single reads -/

/-- Reads the next character, and takes the read back unless there was a character
that satisfies `p`. -/
def readOrUnread (p : Char → Bool) (c : Cursor) : Option Char × Cursor :=
  match c.read with
  | (none, d) => (none, d.unread)
  | (some ch, d) => if p ch then (some ch, d) else (none, d.unread)

/-- Reads the longest run of characters that satisfy `p`, and takes back the read
of the character behind it. -/
def readRun (p : Char → Bool) (c : Cursor) : List Char × Cursor :=
  match found : c.read with
  | (none, d) => ([], d)
  | (some ch, d) =>
    have := length_ahead_lt_of_read found
    if p ch then
      let (run, e) := d.readRun p
      (ch :: run, e)
    else ([], d.unread)
termination_by c.ahead.length

/-- Reads a point and digits, if a point comes next. -/
def readFraction (c : Cursor) : List Char × Cursor :=
  match c.readOrUnread (· == '.') with
  | (none, c) => ([], c)
  | (some point, c) =>
    let (ds, c) := c.readRun Char.isDigit
    (point :: ds, c)

/-- Reads the mark of an exponent, a sign if there is one, and digits, if a mark
comes next. -/
def readExponent (c : Cursor) : List Char × Cursor :=
  match c.readOrUnread Numeral.isMark with
  | (none, c) => ([], c)
  | (some e, c) =>
    let (sign, c) := c.readOrUnread Numeral.isSign
    let (ds, c) := c.readRun Char.isDigit
    (e :: (sign.toList ++ ds), c)

/-- Reads a numeral part by part. -/
def readNumeral (c : Cursor) : List Char × Cursor :=
  let (sign, c) := c.readOrUnread (· == '-')
  let (whole, c) := c.readRun Char.isDigit
  let (frac, c) := c.readFraction
  let (exp, c) := c.readExponent
  (sign.toList ++ (whole ++ (frac ++ exp)), c)

/-! ## What single reads come to -/

variable {c d : Cursor} {ch : Char} {cs s rest : List Char} {p : Char → Bool}

/-- The first part of the text ahead, and a cursor in front of the second part with
nothing to take back. -/
def cutOff (c : Cursor) (cut : List Char × List Char) : List Char × Cursor :=
  (cut.1, ⟨cut.2, c.pos.after cut.1, none⟩)

theorem readOrUnread_of_pos (ahead : c.ahead = ch :: cs) (holds : p ch = true) :
    c.readOrUnread p = (some ch, ⟨cs, c.pos.advance ch, some (c.ahead, c.pos)⟩) := by
  simp only [readOrUnread, read_of_cons ahead, if_pos holds]

theorem readOrUnread_of_stops (stops : Numeral.Stops p c.ahead) :
    c.readOrUnread p = (none, ⟨c.ahead, c.pos, none⟩) := by
  cases ahead : c.ahead with
  | nil =>
      -- Nothing is kept at the end of the text, so `unread` stays there.
      rw [readOrUnread, read_of_nil ahead, ahead]
      rfl
  | cons ch cs =>
      have fails : ¬p ch = true := by simpa using stops ch (by rw [ahead]; rfl)
      simp only [readOrUnread, read_of_cons ahead, if_neg fails, unread, ahead]

/-- A run that is read character by character is the one that the text starts with. -/
theorem readRun_eq (p : Char → Bool) (c : Cursor) :
    c.readRun p = c.cutOff (c.ahead.takeWhile p, c.ahead.dropWhile p) := by
  induction text : c.ahead generalizing c with
  | nil =>
      rw [readRun]
      split
      next found =>
        cases (read_of_nil text).symm.trans found
        rw [text]
        rfl
      next found => cases (read_of_nil text).symm.trans found
  | cons ch cs ih =>
      rw [readRun]
      split
      next found => cases (read_of_cons text).symm.trans found
      next found =>
        cases (read_of_cons text).symm.trans found
        split
        next holds => rw [ih _ rfl]; simp [cutOff, holds]
        next fails => simp [cutOff, unread, text, fails]

/-- The decimal point and its digits are read as they are cut off the text. -/
theorem readFraction_eq (c : Cursor) :
    c.readFraction = c.cutOff (Numeral.fraction c.ahead) := by
  rcases Numeral.starts_or_stops (· == '.') c.ahead with ⟨point, cs, ahead, isPoint⟩ | stops
  · obtain rfl : point = '.' := by simpa using isPoint
    rw [readFraction, readOrUnread_of_pos (p := (· == '.')) ahead isPoint, ahead]
    simp only [readRun_eq]
    rfl
  · rw [readFraction, readOrUnread_of_stops stops, Numeral.fraction_of_stops stops]
    rfl

/-- What a single read comes to, whatever it finds. -/
theorem exists_readOrUnread (p : Char → Bool) (c : Cursor) :
    ∃ last, (c.readOrUnread p).1.toList = (Numeral.mark p c.ahead).1 ∧
      (c.readOrUnread p).2 =
        ⟨(Numeral.mark p c.ahead).2, c.pos.after (Numeral.mark p c.ahead).1, last⟩ := by
  rcases Numeral.starts_or_stops p c.ahead with ⟨ch, cs, ahead, holds⟩ | stops
  · rw [readOrUnread_of_pos ahead holds, ahead, Numeral.mark_pos holds]
    exact ⟨_, rfl, rfl⟩
  · rw [readOrUnread_of_stops stops, Numeral.mark_neg stops]
    exact ⟨_, rfl, rfl⟩

/-- So are the mark of an exponent, its sign and its digits. -/
theorem readExponent_eq (c : Cursor) :
    c.readExponent = c.cutOff (Numeral.exponent c.ahead) := by
  rcases Numeral.starts_or_stops Numeral.isMark c.ahead with ⟨e, cs, ahead, marked⟩ | stops
  · obtain ⟨last, sign, d⟩ :=
      exists_readOrUnread Numeral.isSign ⟨cs, c.pos.advance e, some (e :: cs, c.pos)⟩
    rw [readExponent, readOrUnread_of_pos ahead marked, ahead, Numeral.exponent_of_isMark marked]
    simp only [readRun_eq, sign, d]
    simp [cutOff, Numeral.digits]
  · rw [readExponent, readOrUnread_of_stops stops, Numeral.exponent_of_stops stops]
    rfl

/-- The numeral read is the one that is cut off the text ahead. -/
theorem readNumeral_eq (c : Cursor) : c.readNumeral = c.cutOff (Numeral.split c.ahead) := by
  obtain ⟨last, sign, d⟩ := exists_readOrUnread (· == '-') c
  rw [readNumeral]
  simp only [sign, d, readRun_eq, readFraction_eq, readExponent_eq]
  simp [cutOff, Numeral.split, Numeral.digits]

/-! ## What is scanned -/

/-- Where a minus sign or a digit comes next, a number is scanned: the longest numeral
that the text ahead starts with, and no more.  Single reads, the first of which has
been taken back, come to the same end. -/
theorem scan_longest_numeral (next : c.peek = some ch)
    (starts : (ch == '-' || ch.isDigit) = true) :
    ∃ s rest, c.ahead = s ++ rest ∧ s ≠ [] ∧ Numeral.Longest s c.ahead ∧
      c.scan = (⟨.number, c.pos, String.ofList s⟩, ⟨rest, c.pos.after s, none⟩) ∧
      c.read.2.unread.readNumeral = (s, ⟨rest, c.pos.after s, none⟩) := by
  obtain ⟨cs, ahead⟩ := List.head?_eq_some_iff.mp next
  have nonempty : Numeral.first c.ahead ≠ [] := by
    rw [ahead]
    exact Numeral.first_ne_nil starts
  obtain ⟨x, xs, first⟩ := List.exists_cons_of_ne_nil nonempty
  have cut : c.ahead = x :: xs ++ (Numeral.split c.ahead).2 := by
    rw [← first, Numeral.first, Numeral.split_append]
  obtain rfl : x = ch := (List.cons.inj (cut.symm.trans ahead)).1
  have spelled : Lexeme.Spells (.plain .number (x :: xs)) (x :: xs) (Numeral.split c.ahead).2 :=
    .numeral starts (by rw [← cut, first])
  refine ⟨x :: xs, _, cut, List.cons_ne_nil x xs, first ▸ Numeral.longest_first c.ahead, ?_, ?_⟩
  · exact scan_of_spells cut spelled
  · rw [c.unread_read (by simp [ahead]), readNumeral_eq, cutOff, ← first]
    rfl

/-- The text ends behind the sign of an exponent, and the numeral with it.  In front of
a second sign it ends as well. -/
theorem scan_longest_numeral_cut_short :
    let c : Cursor := ⟨['-', '.', 'e', '+'], ⟨2, 3⟩, none⟩
    let d : Cursor := ⟨['1', 'e', '-', '-'], ⟨2, 3⟩, none⟩
    c.peek = some '-' ∧ d.peek = some '1' ∧
      c.scan = (⟨.number, ⟨2, 3⟩, "-.e+"⟩, ⟨[], ⟨2, 7⟩, none⟩) ∧
      d.scan = (⟨.number, ⟨2, 3⟩, "1e-"⟩, ⟨['-'], ⟨2, 6⟩, none⟩) ∧
      d.read.2.unread.readNumeral = (['1', 'e', '-'], ⟨['-'], ⟨2, 6⟩, none⟩) := by
  intro c d
  have minus : c.peek = some '-' := rfl
  have digit : d.peek = some '1' := rfl
  obtain ⟨s, rest, cut, _, longest, scanned, _⟩ := scan_longest_numeral minus rfl
  obtain ⟨s', rest', cut', _, longest', scanned', read⟩ := scan_longest_numeral digit rfl
  obtain rfl : s = ['-', '.', 'e', '+'] := longest.eq_first.trans (by decide)
  obtain rfl : s' = ['1', 'e', '-'] := longest'.eq_first.trans (by decide)
  have left : ['-', '.', 'e', '+'] ++ [] = ['-', '.', 'e', '+'] ++ rest := cut
  have left' : ['1', 'e', '-'] ++ ['-'] = ['1', 'e', '-'] ++ rest' := cut'
  obtain rfl := List.append_cancel_left left
  obtain rfl := List.append_cancel_left left'
  exact ⟨minus, digit, scanned, scanned', read⟩

end MetricLabels.Cursor
