import MetricLabels.Proofs.Text.Lines
import MetricLabels.Proofs.Token.Tiles

/-!
# Quoted forms are scanned back

The quoted form of a text is scanned as one string with that text, whatever
stands behind it, unless the text has a line feed (`Lexeme.spells_encode`).  The
first line feed of the text is the first of its quoted form, and what is scanned
breaks off there (`Lexeme.exists_spells_lineFeed`).

A string that is scanned has no line feed in its text, however it is written
(`Lexeme.Spells.newline_notMem`).  So its text can be quoted and scanned again
(`Cursor.scan_encode`).
-/

namespace MetricLabels

variable {value : String} {s rest : List Char}

/-! ## The lexeme of a quoted form -/

namespace Lexeme

/-- A value in quotes spells itself if it has no line feed. -/
theorem spells_encode (plain : '\n' ∉ value.toList) (rest : List Char) :
    Spells (ofQuoted ⟨value.toList, (Quoted.escape value.toList).length, .closed⟩)
      (Quoted.encode value).toList rest := by
  rw [Quoted.toList_encode]
  exact .quoted rfl (Quoted.written_escape plain) trivial

/-- A line feed in the text breaks its quoted form off at the first one. -/
theorem exists_spells_lineFeed (lineFeed : '\n' ∈ value.toList) (rest : List Char) :
    ∃ before later, value.toList.takeWhile (· != '\n') = before ∧
      '\n' ∉ '"' :: Quoted.escape before ∧
      (Quoted.encode value).toList ++ rest = '"' :: (Quoted.escape before ++ ['\n']) ++ later ∧
      Spells (ofQuoted ⟨before, (Quoted.escape before).length, .newline⟩)
        ('"' :: (Quoted.escape before ++ ['\n'])) later := by
  obtain ⟨before, behind, cut, plain⟩ := List.eq_append_cons_of_mem lineFeed
  refine ⟨before, Quoted.escape behind ++ '"' :: rest, ?_, ?_, ?_, ?_⟩
  · rw [cut, takeWhile_append_cons plain]
  · simpa [Quoted.newline_mem_escape_iff] using plain
  · rw [Quoted.toList_encode, cut]
    simp [Quoted.escape]
  · exact .quoted rfl (Quoted.written_escape plain) trivial

/-- No string has a line feed in its text, whichever quotes and escapes it is written
with. -/
theorem Spells.newline_notMem {l : Lexeme} (spelled : l.Spells s rest)
    (string : l.kind = .string) : '\n' ∉ l.text := by
  cases spelled with
  | @quoted quote body text _ ending _ written _ =>
      cases ending with
      | closed => exact written.newline_notMem
      | _ => cases string
  | sign kind sign _ =>
      obtain rfl : kind = .string := string
      cases sign
  | _ => cases string

end Lexeme

/-! ## Scanning -/

namespace Cursor

variable {c : Cursor}

/-- So it is scanned as one string. -/
theorem scan_encode_of_plain (ahead : c.ahead = (Quoted.encode value).toList ++ rest)
    (plain : '\n' ∉ value.toList) :
    c.scan = (⟨.string, c.pos, value⟩, ⟨rest, c.pos.after (Quoted.encode value).toList, none⟩) := by
  have scanned := scan_of_spells ahead (Lexeme.spells_encode plain rest)
  simpa [Lexeme.tokenAt, Lexeme.ofQuoted] using scanned

/-- Otherwise it is scanned up to its first line feed. -/
theorem scan_encode_of_lineFeed (ahead : c.ahead = (Quoted.encode value).toList ++ rest)
    (lineFeed : '\n' ∈ value.toList) :
    ∃ front later, c.ahead = front ++ '\n' :: later ∧ '\n' ∉ front ∧
      c.scan = (⟨.newline, c.pos.after front, String.ofList (value.toList.takeWhile (· != '\n'))⟩,
        ⟨later, c.pos.after (front ++ ['\n']), none⟩) := by
  obtain ⟨before, later, upTo, plain, cut, spelled⟩ :=
    Lexeme.exists_spells_lineFeed lineFeed rest
  have scanned := scan_of_spells (ahead.trans cut) spelled
  refine ⟨'"' :: Quoted.escape before, later, by simp [ahead, cut], plain, ?_⟩
  simpa [Lexeme.tokenAt, Lexeme.ofQuoted, upTo] using scanned

theorem newline_notMem_scan (string : c.scan.1.kind = .string) :
    '\n' ∉ c.scan.1.text.toList := by
  rcases allBlank_or_spells c.ahead with blank | ⟨blanks, s, rest, l, blank, spelled, ahead⟩
  · rw [scan_allBlank blank] at string
    cases string
  · rw [scan_spelled ahead blank spelled] at string ⊢
    rw [Lexeme.tokenAt, String.toList_ofList]
    exact spelled.newline_notMem string

/-- The quoted form of a text without line feeds is scanned as a string with that text,
and what stands behind it is left.  If the text has one, what is scanned is the first
line feed, and everything behind that is left.

The text of a string that is scanned has no line feed.  So its quoted form is scanned
as the same text, even if it was written in another way. -/
theorem scan_encode (c : Cursor) :
    (∀ (v : String) (r : List Char), c.ahead = (Quoted.encode v).toList ++ r →
      ('\n' ∉ v.toList →
        c.scan = (⟨.string, c.pos, v⟩, ⟨r, c.pos.after (Quoted.encode v).toList, none⟩)) ∧
      ('\n' ∈ v.toList → ∃ front later, c.ahead = front ++ '\n' :: later ∧ '\n' ∉ front ∧
        c.scan = (⟨.newline, c.pos.after front, String.ofList (v.toList.takeWhile (· != '\n'))⟩,
          ⟨later, c.pos.after (front ++ ['\n']), none⟩))) ∧
    (c.scan.1.kind = .string → '\n' ∉ c.scan.1.text.toList ∧
      ∀ (d : Cursor) (r : List Char), d.ahead = (Quoted.encode c.scan.1.text).toList ++ r →
        d.scan = (⟨.string, d.pos, c.scan.1.text⟩,
          ⟨r, d.pos.after (Quoted.encode c.scan.1.text).toList, none⟩)) := by
  refine ⟨fun v r ahead => ⟨scan_encode_of_plain ahead, scan_encode_of_lineFeed ahead⟩, ?_⟩
  intro string
  have plain := newline_notMem_scan string
  exact ⟨plain, fun d r ahead => scan_encode_of_plain ahead plain⟩

/-- A quote and a backslash at the end of the text, a line feed behind a quote, and a
string in single quotes that is written again in double ones. -/
theorem scan_encode_with_escapes :
    let c : Cursor := ⟨['"', 'a', '\\', '"', '\\', '\\', '"', 'x'], ⟨2, 3⟩, none⟩
    let d : Cursor := ⟨['"', '\\', '"', '\n', '"', 'x'], ⟨2, 3⟩, none⟩
    let e : Cursor := ⟨['\'', 'a', '\\', '\'', '\'', 'x'], ⟨2, 3⟩, none⟩
    let f : Cursor := ⟨['"', 'a', '\'', '"', '"'], ⟨1, 1⟩, none⟩
    c.scan = (⟨.string, ⟨2, 3⟩, "a\"\\"⟩, ⟨['x'], ⟨2, 10⟩, none⟩) ∧
      d.scan = (⟨.newline, ⟨2, 6⟩, "\""⟩, ⟨['"', 'x'], ⟨3, 1⟩, none⟩) ∧
      e.scan.1 = ⟨.string, ⟨2, 3⟩, "a'"⟩ ∧
      f.scan = (⟨.string, ⟨1, 1⟩, "a'"⟩, ⟨['"'], ⟨1, 5⟩, none⟩) := by
  intro c d e f
  have closed : c.scan = (⟨.string, c.pos, "a\"\\"⟩,
      ⟨['x'], c.pos.after (Quoted.encode "a\"\\").toList, none⟩) :=
    ((scan_encode c).1 _ _ (by decide)).1 (by decide)
  have behind : c.pos.after (Quoted.encode "a\"\\").toList = ⟨2, 10⟩ := by decide
  obtain ⟨front, later, cut, plain, broken⟩ :=
    ((scan_encode d).1 "\"\n" ['x'] (by decide)).2 (by decide)
  obtain rfl : ['"', '\\', '"'] = front :=
    (congrArg (List.takeWhile (· != '\n')) cut).trans (takeWhile_append_cons plain later)
  have left : ['"', '\\', '"', '\n'] ++ ['"', 'x'] = ['"', '\\', '"', '\n'] ++ later := cut
  obtain rfl := List.append_cancel_left left
  have upTo : String.ofList ("\"\n".toList.takeWhile (· != '\n')) = "\"" := by decide
  have single : e.scan.1 = ⟨.string, ⟨2, 3⟩, "a'"⟩ := by decide
  obtain ⟨_, again⟩ := (scan_encode e).2 (by rw [single])
  have double := again f ['"'] (by rw [single]; decide)
  rw [behind] at closed
  rw [upTo] at broken
  have behind' : f.pos.after (Quoted.encode "a'").toList = ⟨1, 5⟩ := by decide
  rw [single, behind'] at double
  exact ⟨closed, broken, single, double⟩

end Cursor

end MetricLabels
