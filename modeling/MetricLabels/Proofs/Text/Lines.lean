import Mathlib.Data.List.Induction
import MetricLabels.Text.Position

/-!
# Lines and columns

A position is found by counting.  The line is one more than the number of line
feeds before it, and the column one more than the number of characters since the
last of them (`Position.behind`).  Stepping through the text from its start
comes to the same place (`Position.start_after`).

Line feeds cut a text into pieces, one more than there are line feeds.  A
position is a place in the pieces: its line counts the pieces, and its column
counts the characters in one of them (`Position.exists_pieces`).

The lines of a text are almost its pieces.  A carriage return before a line feed
is no part of a line, and an empty piece behind the last line feed is no line.
So a piece and the line of the same number differ in a carriage return at most,
and there is a line unless the piece is empty (`getD_linesOf`).
-/

namespace MetricLabels

/-! ## Counting -/

namespace Position

/-- The place behind the characters that a text starts with. -/
def behind (before : List Char) : Position :=
  ⟨before.count '\n' + 1, (before.reverse.takeWhile (· != '\n')).length + 1⟩

/-- One more character moves the place as it moves a position. -/
theorem behind_snoc (before : List Char) (c : Char) :
    behind (before ++ [c]) = (behind before).advance c := by
  rw [behind, List.count_append, List.reverse_append, List.reverse_singleton,
    List.singleton_append, List.takeWhile_cons, advance]
  by_cases lineFeed : c = '\n'
  · simp [behind, lineFeed]
  · simp [behind, lineFeed]

/-- Stepping from the start comes to the place that counting finds. -/
theorem start_after (before : List Char) : start.after before = behind before := by
  induction before using List.reverseRecOn with
  | nil => rfl
  | append_singleton before c ih => rw [after_append, ih, behind_snoc, after_cons, after_nil]

@[simp] theorem behind_after (before text : List Char) :
    (behind before).after text = behind (before ++ text) := by
  rw [← start_after, ← start_after, after_append]

/-- There are no more lines than characters, and one. -/
theorem line_behind_le (before : List Char) : (behind before).line ≤ before.length + 1 :=
  Nat.succ_le_succ List.count_le_length

/-- Nor are there more columns. -/
theorem column_behind_le (before : List Char) : (behind before).column ≤ before.length + 1 := by
  have shorter := (List.takeWhile_sublist (· != '\n') (l := before.reverse)).length_le
  rw [List.length_reverse] at shorter
  exact Nat.succ_le_succ shorter

end Position

/-! ## Pieces and lines -/

/-- The pieces of a text between its line feeds. -/
def pieces (text : List Char) : List (List Char) := text.splitOn '\n'

/-- A piece without a carriage return at its end. -/
def dropReturn (piece : List Char) : List Char :=
  if piece.getLast? = some '\r' then piece.dropLast else piece

/-- The lines that pieces make up.  A line feed stands behind each but the last. -/
def linesOf : List (List Char) → List (List Char)
  | [] => []
  | [last] => if last = [] then [] else [last]
  | piece :: next :: more => dropReturn piece :: linesOf (next :: more)

/-- The lines of a text. -/
def lines (text : List Char) : List (List Char) := linesOf (pieces text)

variable {before rest content piece text : List Char} {c : Char}

/-! ### Up to a character -/

theorem bne_of_notMem (absent : c ∉ content) : ∀ x ∈ content, (x != c) = true :=
  fun _ member => bne_iff_ne.mpr fun same => absent (same ▸ member)

theorem takeWhile_of_notMem (absent : c ∉ content) : content.takeWhile (· != c) = content := by
  have whole : (content ++ []).takeWhile (· != c) = content ++ [] :=
    List.takeWhile_append_of_pos (bne_of_notMem absent)
  rwa [List.append_nil] at whole

theorem dropWhile_of_notMem (absent : c ∉ content) : content.dropWhile (· != c) = [] := by
  have nothing : (content ++ []).dropWhile (· != c) = [] :=
    List.dropWhile_append_of_pos (bne_of_notMem absent)
  rwa [List.append_nil] at nothing

/-- A text is cut before the first of a character. -/
theorem takeWhile_append_cons (absent : c ∉ content) (rest : List Char) :
    (content ++ c :: rest).takeWhile (· != c) = content := by
  rw [List.takeWhile_append_of_pos (bne_of_notMem absent),
    List.takeWhile_cons_of_neg (by simp), List.append_nil]

theorem dropWhile_append_cons (absent : c ∉ content) (rest : List Char) :
    (content ++ c :: rest).dropWhile (· != c) = c :: rest := by
  rw [List.dropWhile_append_of_pos (bne_of_notMem absent), List.dropWhile_cons_of_neg (by simp)]

/-! ### Pieces -/

theorem pieces_lineFeed (rest : List Char) : pieces ('\n' :: rest) = [] :: pieces rest := by
  rw [pieces, List.splitOn_cons_eq_if_modifyHead, if_pos (beq_self_eq_true _), pieces]

/-- Any other character goes on with its piece. -/
theorem pieces_cons (other : c ≠ '\n') (rest : List Char) :
    pieces (c :: rest) = (pieces rest).modifyHead (c :: ·) := by
  rw [pieces, List.splitOn_cons_eq_if_modifyHead, if_neg (by simp [other]), pieces]

theorem pieces_of_notMem (plain : '\n' ∉ content) : pieces content = [content] :=
  List.splitOn_eq_singleton plain

/-- A line feed ends a piece. -/
theorem pieces_append (plain : '\n' ∉ content) (rest : List Char) :
    pieces (content ++ '\n' :: rest) = content :: pieces rest :=
  List.splitOn_append_cons_self_of_not_mem plain rest

/-- There is one piece more than there are line feeds. -/
theorem length_pieces (text : List Char) : (pieces text).length = text.count '\n' + 1 := by
  induction text with
  | nil => rfl
  | cons c text ih =>
      by_cases lineFeed : c = '\n'
      · rw [lineFeed, pieces_lineFeed, List.length_cons, ih, List.count_cons_self]
      · rw [pieces_cons lineFeed, List.length_modifyHead, ih, List.count_cons_of_ne lineFeed]

/-- The first piece goes up to the first line feed. -/
theorem exists_pieces_eq_cons (text : List Char) :
    ∃ later, pieces text = text.takeWhile (· != '\n') :: later := by
  induction text with
  | nil => exact ⟨[], rfl⟩
  | cons c text ih =>
      by_cases lineFeed : c = '\n'
      · rw [lineFeed, pieces_lineFeed]
        exact ⟨_, rfl⟩
      · obtain ⟨later, cut⟩ := ih
        rw [pieces_cons lineFeed, cut, List.takeWhile_cons_of_pos (by simp [lineFeed])]
        exact ⟨later, rfl⟩

/-- Where a piece goes on, it goes on with the first character behind, unless that is a
line feed. -/
theorem getElem?_append_takeWhile (last rest : List Char) :
    (last ++ rest.takeWhile (· != '\n'))[last.length]? = rest.head?.filter (· != '\n') := by
  rw [List.getElem?_append_right (Nat.le_refl _), Nat.sub_self]
  cases rest with
  | nil => rfl
  | cons c rest => by_cases lineFeed : c = '\n' <;> simp [lineFeed, Option.filter]

/-! ### Positions -/

theorem modifyHead_nil_append (all : List (List Char)) : all.modifyHead ([] ++ ·) = all := by
  cases all <;> rfl

/-- What stands before a position is some pieces and the characters of the next
piece before it, and what stands behind it goes on from there. -/
theorem Position.exists_pieces (before : List Char) : ∃ earlier last,
    Position.behind before = ⟨earlier.length + 1, last.length + 1⟩ ∧
      ∀ rest, pieces (before ++ rest) = earlier ++ (pieces rest).modifyHead (last ++ ·) := by
  induction before using List.reverseRecOn with
  | nil => exact ⟨[], [], rfl, fun rest => (modifyHead_nil_append _).symm⟩
  | append_singleton before c ih =>
      obtain ⟨earlier, last, place, cut⟩ := ih
      by_cases lineFeed : c = '\n'
      · refine ⟨earlier ++ [last], [], ?_, fun rest => ?_⟩
        · rw [behind_snoc, place, lineFeed, advance, if_pos rfl, List.length_append]
          rfl
        · rw [List.append_assoc, List.singleton_append, cut, lineFeed, pieces_lineFeed,
            modifyHead_nil_append]
          simp
      · refine ⟨earlier, last ++ [c], ?_, fun rest => ?_⟩
        · rw [behind_snoc, place, advance, if_neg lineFeed, List.length_append]
          rfl
        · rw [List.append_assoc, List.singleton_append, cut, pieces_cons lineFeed,
            List.modifyHead_modifyHead]
          simp [Function.comp_def]

/-! ### Lines -/

theorem lines_of_notMem (plain : '\n' ∉ content) :
    lines content = if content = [] then [] else [content] := by
  rw [lines, pieces_of_notMem plain, linesOf]

/-- A line feed ends a line, less the carriage return before it. -/
theorem lines_append (plain : '\n' ∉ content) (rest : List Char) :
    lines (content ++ '\n' :: rest) = dropReturn content :: lines rest := by
  obtain ⟨later, cut⟩ := exists_pieces_eq_cons rest
  rw [lines, pieces_append plain, lines, cut, linesOf]

/-- The line of a number is the piece of that number, without a carriage return
if a line feed stands behind it.  Where there is no line, the piece is empty. -/
theorem getD_linesOf {all : List (List Char)} {n : Nat} (found : all[n]? = some piece) :
    ((linesOf all)[n]?.getD [] = if n + 1 < all.length then dropReturn piece else piece) ∧
      ((linesOf all)[n]? = none → piece = []) := by
  induction all generalizing n with
  | nil => cases found
  | cons first more ih =>
      cases more with
      | nil =>
          obtain ⟨rfl, rfl⟩ : n = 0 ∧ first = piece := by
            cases n with
            | zero => exact ⟨rfl, Option.some.inj found⟩
            | succ n => cases found
          by_cases empty : first = [] <;> simp [linesOf, empty]
      | cons next more =>
          cases n with
          | zero =>
              obtain rfl := Option.some.inj found
              simp [linesOf]
          | succ n =>
              have line := ih found
              simpa [linesOf] using line

end MetricLabels
