import MetricLabels.ParseError
import MetricLabels.Template.Basic
import MetricLabels.Text.Cursor
import MetricLabels.Text.Name

/-!
# Templates from text

A dollar sign starts a placeholder if a word character or an opening brace
follows it and no backslash precedes it.  A placeholder is `$name`, with the
longest name there is, or `${name}`, whose name may be empty.  All other
characters are text.  The backslash before a dollar sign is kept or dropped, as
the options want it.  Reading fails only at a brace that opens a placeholder and
does not close behind word characters.

The characters are read one at a time.  A read is taken back where it went too
far, which never happens twice in a row.  Text is read with a memory of one
character, which is the one in the source also where that was dropped.
-/

namespace MetricLabels.Template

/-! ## Options -/

/-- What becomes of the backslash before a dollar sign. -/
inductive EscapeMode where
  /-- It stays part of the text. -/
  | preserve
  /-- It is dropped. -/
  | strip
deriving Repr, DecidableEq

namespace EscapeMode

/-- What data calls the mode. -/
def name : EscapeMode → String
  | preserve => "preserve"
  | strip => "strip"

/-- The mode of the given name. -/
def ofName? (name : String) : Option EscapeMode := [preserve, strip].find? (·.name == name)

end EscapeMode

/-- How a text is read. -/
structure Options where
  /-- What becomes of the backslash before a dollar sign. -/
  escape : EscapeMode := .preserve
deriving Repr, DecidableEq

/-- Whether a dollar sign before the character starts a placeholder. -/
def opensVariable (c : Char) : Bool := isWord c || c == '{'

/-! ## Text -/

/-- Reads text up to the next placeholder.  What was read so far is `text`, the
latest character first, and `prev` is the character before the next one, unless
the text starts there. -/
def readText (mode : EscapeMode) (prev : Option Char) (text : List Char) (c : Cursor) :
    List Char × Cursor :=
  match found : c.read with
  | (none, d) => (text.reverse, d)
  | (some ch, d) =>
    have := Cursor.length_ahead_lt_of_read found
    if ch = '$' ∧ prev ≠ some '\\' ∧ d.peek.any opensVariable then (text.reverse, d.unread)
    else
      let text := if ch = '$' ∧ prev = some '\\' ∧ mode = .strip then text.tail else text
      readText mode (some ch) (ch :: text) d
termination_by c.ahead.length

/-- At the end there is no text left to read. -/
theorem readText_of_nil {mode : EscapeMode} {prev : Option Char} {text : List Char} {c : Cursor}
    (ahead : c.ahead = []) :
    readText mode prev text c = (text.reverse, { c with last := none }) := by
  rw [readText]
  split
  next found =>
    cases (Cursor.read_of_nil ahead).symm.trans found
    rfl
  next found => cases (Cursor.read_of_nil ahead).symm.trans found

/-- One character is read, or taken back if it starts a placeholder. -/
theorem readText_of_cons {mode : EscapeMode} {prev : Option Char} {text cs : List Char} {c : Cursor}
    {ch : Char} (ahead : c.ahead = ch :: cs) :
    readText mode prev text c =
      if ch = '$' ∧ prev ≠ some '\\' ∧ cs.head?.any opensVariable then
        (text.reverse, { c with last := none })
      else
        let text := if ch = '$' ∧ prev = some '\\' ∧ mode = .strip then text.tail else text
        readText mode (some ch) (ch :: text) ⟨cs, c.pos.advance ch, some (c.ahead, c.pos)⟩ := by
  rw [readText]
  split
  next found => cases (Cursor.read_of_cons ahead).symm.trans found
  next found =>
    cases (Cursor.read_of_cons ahead).symm.trans found
    rfl

/-- Reading text gives no character back but the one it stops at. -/
theorem length_ahead_readText_le (mode : EscapeMode) (prev : Option Char) (text : List Char)
    (c : Cursor) : (readText mode prev text c).2.ahead.length ≤ c.ahead.length := by
  induction ahead : c.ahead generalizing prev text c with
  | nil =>
      rw [readText_of_nil ahead]
      exact Nat.le_of_eq (congrArg List.length ahead)
  | cons ch cs ih =>
      rw [readText_of_cons ahead]
      split
      next => exact Nat.le_of_eq (congrArg List.length ahead)
      next => exact Nat.le_succ_of_le (ih _ _ _ rfl)

/-! ## Placeholders -/

/-- Reads a name up to its end, and tells whether that is a closing brace.  Only
a name in braces ends with one. -/
def readName (braced : Bool) (c : Cursor) : Bool × List Char × Cursor :=
  match found : c.read with
  | (none, d) => (false, [], d)
  | (some ch, d) =>
    have := Cursor.length_ahead_lt_of_read found
    if braced = true ∧ ch = '}' then (true, [], d)
    else if isWord ch then
      let (closed, name, e) := readName braced d
      (closed, ch :: name, e)
    else (false, [], d.unread)
termination_by c.ahead.length

/-- At the end of the text a name ends and is not closed. -/
theorem readName_of_nil {braced : Bool} {c : Cursor} (ahead : c.ahead = []) :
    readName braced c = (false, [], { c with last := none }) := by
  rw [readName]
  split
  next found =>
    cases (Cursor.read_of_nil ahead).symm.trans found
    rfl
  next found => cases (Cursor.read_of_nil ahead).symm.trans found

/-- One character is the brace that closes the name, goes on with it, or is taken back. -/
theorem readName_of_cons {braced : Bool} {c : Cursor} {ch : Char} {cs : List Char}
    (ahead : c.ahead = ch :: cs) :
    readName braced c =
      let d : Cursor := ⟨cs, c.pos.advance ch, some (c.ahead, c.pos)⟩
      if braced = true ∧ ch = '}' then (true, [], d)
      else if isWord ch then ((readName braced d).1, ch :: (readName braced d).2.1,
        (readName braced d).2.2)
      else (false, [], { c with last := none }) := by
  rw [readName]
  split
  next found => cases (Cursor.read_of_cons ahead).symm.trans found
  next found =>
    cases (Cursor.read_of_cons ahead).symm.trans found
    rfl

/-- Reading a name gives no character back but the one it stops at. -/
theorem length_ahead_readName_le (braced : Bool) (c : Cursor) :
    (readName braced c).2.2.ahead.length ≤ c.ahead.length := by
  induction ahead : c.ahead generalizing c with
  | nil =>
      rw [readName_of_nil ahead]
      exact Nat.le_of_eq (congrArg List.length ahead)
  | cons ch cs ih =>
      rw [readName_of_cons ahead]
      dsimp only
      split
      next => exact Nat.le_succ _
      next =>
        split
        next => exact Nat.le_succ_of_le (ih _ rfl)
        next => exact Nat.le_of_eq (congrArg List.length ahead)

/-- Reads the name of a placeholder, from behind the dollar sign to the end of
the placeholder. -/
def readPlaceholder (c : Cursor) : Except ParseError (String × Cursor) :=
  let braced := c.peek == some '{'
  let (closed, name, rest) := readName braced (if braced then c.read.2 else c)
  if braced = true ∧ closed = false then .error (.unbalancedBrace c.pos)
  else .ok (String.ofList name, rest)

/-- Behind a placeholder there is no more ahead than before its name. -/
theorem length_ahead_le_of_readPlaceholder {c rest : Cursor} {name : String}
    (h : readPlaceholder c = .ok (name, rest)) : rest.ahead.length ≤ c.ahead.length := by
  have behindBrace : c.read.2.ahead.length ≤ c.ahead.length := by
    cases ahead : c.ahead with
    | nil =>
        rw [Cursor.read_of_nil ahead]
        exact Nat.le_of_eq (congrArg List.length ahead)
    | cons ch cs =>
        rw [Cursor.read_of_cons ahead]
        exact Nat.le_succ _
  have opening : (if c.peek == some '{' then c.read.2 else c).ahead.length ≤ c.ahead.length := by
    split
    next => exact behindBrace
    next => exact Nat.le_refl _
  rw [readPlaceholder] at h
  generalize (if c.peek == some '{' then c.read.2 else c) = inner at opening h
  have naming := length_ahead_readName_le (c.peek == some '{') inner
  simp only at h
  split at h
  next => cases h
  next =>
    cases h
    exact Nat.le_trans naming opening

/-! ## Templates -/

/-- Text that is read where no placeholder starts has a first character. -/
theorem length_ahead_readText_lt (mode : EscapeMode) {c : Cursor} {ch : Char} {cs : List Char}
    (ahead : c.ahead = ch :: cs) (plain : ¬(ch = '$' ∧ cs.head?.any opensVariable = true)) :
    (readText mode none [] c).2.ahead.length < c.ahead.length := by
  rw [readText_of_cons ahead, if_neg fun stops => plain ⟨stops.1, stops.2.2⟩, ahead]
  exact Nat.lt_succ_of_le (length_ahead_readText_le _ _ _ _)

theorem length_ahead_readText_lt_of_peek2 (mode : EscapeMode) {c : Cursor} {first second : Char}
    (next : c.peek2 = (some first, some second))
    (plain : ¬(first = '$' ∧ opensVariable second = true)) :
    (readText mode none [] c).2.ahead.length < c.ahead.length := by
  obtain ⟨cs, ahead⟩ := List.head?_eq_some_iff.mp (Prod.mk.inj next).1
  obtain ⟨_, behind⟩ := Prod.mk.inj ((Cursor.peek2_of_cons ahead).symm.trans next)
  exact length_ahead_readText_lt mode ahead (behind ▸ plain)

/-- Reads the pieces of the text ahead. -/
def readNodes (options : Options) (c : Cursor) : Except ParseError (List Node) :=
  match next : c.peek2 with
  | (none, _) => .ok []
  | (some _, none) => .ok [.text (String.ofList (readText options.escape none [] c).1)]
  | (some first, some second) =>
    if starts : first = '$' ∧ opensVariable second = true then
      match read : readPlaceholder c.read.2 with
      | .error e => .error e
      | .ok (name, rest) =>
        have := Nat.lt_of_le_of_lt (length_ahead_le_of_readPlaceholder read)
          (Cursor.length_ahead_read_lt (Prod.mk.inj next).1)
        (readNodes options rest).map (.placeholder name :: ·)
    else
      have := length_ahead_readText_lt_of_peek2 options.escape next starts
      let text := readText options.escape none [] c
      (readNodes options text.2).map (.text (String.ofList text.1) :: ·)
termination_by c.ahead.length

section

variable {options : Options} {c : Cursor} {ch : Char} {cs : List Char}

/-- No piece is read at the end of the text. -/
theorem readNodes_of_nil (ahead : c.ahead = []) : readNodes options c = .ok [] := by
  rw [readNodes]
  split
  next => rfl
  next more => cases more.symm.trans (Cursor.peek2_of_nil ahead)
  next more => cases more.symm.trans (Cursor.peek2_of_nil ahead)

/-- At a dollar sign that opens a placeholder, the placeholder is read. -/
theorem readNodes_of_dollar (ahead : c.ahead = '$' :: cs)
    (opens : cs.head?.any opensVariable = true) :
    readNodes options c = match readPlaceholder c.read.2 with
      | .error e => .error e
      | .ok (name, rest) => (readNodes options rest).map (.placeholder name :: ·) := by
  have next := Cursor.peek2_of_cons ahead
  rw [readNodes]
  split
  next more => cases more.symm.trans next
  next more =>
    rw [← (Prod.mk.inj (more.symm.trans next)).2] at opens
    cases opens
  next more =>
    obtain ⟨same, behind⟩ := Prod.mk.inj (more.symm.trans next)
    cases same
    rw [← behind] at opens
    rw [dif_pos ⟨rfl, opens⟩]
    split
    next failed => rw [failed]
    next read => simp only [read]

/-- Where no placeholder starts, text is read.  That holds of a last character as
well, since nothing is left behind it. -/
theorem readNodes_of_text (ahead : c.ahead = ch :: cs)
    (plain : ¬(ch = '$' ∧ cs.head?.any opensVariable = true)) :
    readNodes options c =
      (readNodes options (readText options.escape none [] c).2).map
        (.text (String.ofList (readText options.escape none [] c).1) :: ·) := by
  have next := Cursor.peek2_of_cons ahead
  rw [readNodes]
  split
  next more => cases more.symm.trans next
  next more =>
    have last : cs = [] := List.head?_eq_none_iff.mp (Prod.mk.inj (next.symm.trans more)).2
    have behind : (readText options.escape none [] c).2.ahead = [] := by
      rw [readText_of_cons ahead, last, if_neg fun stops => nomatch stops.2.2]
      exact congrArg (·.2.ahead) (readText_of_nil (c := ⟨[], _, _⟩) rfl)
    rw [readNodes_of_nil behind]
    rfl
  next first second more =>
    obtain ⟨same, behind⟩ := Prod.mk.inj (next.symm.trans more)
    cases same
    rw [behind] at plain
    exact dif_neg plain

end

/-- The template of a text, read in the given way. -/
def parseWith (options : Options) (text : String) : Except ParseError Template := do
  return ⟨← readNodes options (.ofString text)⟩

/-- The template of a text. -/
def parse (text : String) : Except ParseError Template := parseWith {} text

/-- The names of the variables of the template that a text spells out. -/
def parseVariableNames (text : String) : Except ParseError (List String) := do
  return (← parse text).variableNames

/-- The template that a text spells out, rendered. -/
def interpolate {σ : Type} [VariableSource σ] (text : String) (data : σ) :
    Except ParseError String := do
  return (← parse text).render data

end MetricLabels.Template
