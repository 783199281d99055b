import Mathlib.Order.Bounds.Basic
import MetricLabels.Proofs.Template.Reading

/-!
# Where a template fails

A placeholder is broken if a brace follows its dollar sign and does not close
behind word characters (`BrokenAt`).  That can be told from the text at its index,
like the start of a placeholder.

Reading fails exactly at the first broken placeholder (`parseWith_eq_error_iff`).
The pieces that are read before the failure hold no broken one: no placeholder
starts within a stretch of text, and one that is spelled out is closed.
-/

namespace MetricLabels.Template

variable {before s s' rest after name : List Char}

/-! ## Broken placeholders -/

/-- At the given index a placeholder starts with a brace that does not close. -/
structure BrokenAt (text : List Char) (i : Nat) : Prop where
  /-- A placeholder starts. -/
  starts : startsAt text i = true
  /-- A brace opens behind the dollar sign. -/
  opened : ∃ inner, text.drop (i + 1) = '\x7b' :: inner
  /-- No name with a closing brace follows. -/
  unclosed : ∀ name rest, (∀ c ∈ name, isWord c = true) →
    text.drop (i + 1) ≠ '\x7b' :: (name ++ '\x7d' :: rest)

theorem unclosed_iff {text : List Char} : Unclosed text ↔
    (∃ inner, text = '\x7b' :: inner) ∧
      ∀ name rest, (∀ c ∈ name, isWord c = true) → text ≠ '\x7b' :: (name ++ '\x7d' :: rest) := by
  constructor
  · rintro ⟨inner, rfl, unclosed⟩
    refine ⟨⟨inner, rfl⟩, fun name rest word same => unclosed ?_⟩
    rw [(List.cons.inj same).2, List.dropWhile_append_of_pos word]
    rfl
  · rintro ⟨⟨inner, rfl⟩, unclosed⟩
    refine ⟨inner, rfl, fun closed => ?_⟩
    obtain ⟨rest, cut⟩ := List.head?_eq_some_iff.mp closed
    refine unclosed (inner.takeWhile isWord) rest (fun _ => List.mem_takeWhile_imp) ?_
    rw [← cut, List.takeWhile_append_dropWhile]

/-- A start is broken if the brace behind it does not close. -/
theorem brokenAt_iff {text : List Char} {i : Nat} :
    BrokenAt text i ↔ startsAt text i = true ∧ Unclosed (text.drop (i + 1)) := by
  rw [unclosed_iff]
  constructor
  · exact fun broken => ⟨broken.starts, broken.opened, broken.unclosed⟩
  · exact fun ⟨starts, opened, unclosed⟩ => ⟨starts, opened, unclosed⟩

/-- An unescaped dollar sign before an open brace is a broken start. -/
theorem brokenAt_length (unescaped : before.getLast? ≠ some '\\') (unclosed : Unclosed rest) :
    BrokenAt (before ++ '$' :: rest) before.length := by
  refine brokenAt_iff.mpr ⟨?_, ?_⟩
  · obtain ⟨inner, rfl, _⟩ := unclosed
    exact startsAt_length_iff.mpr ⟨unescaped, '\x7b' :: inner, rfl, rfl⟩
  · rwa [List.drop_length_add_append]

theorem BrokenAt.lt_length {text : List Char} {i : Nat} (broken : BrokenAt text i) :
    i < text.length := by
  obtain ⟨inner, cut⟩ := broken.opened
  have shorter := congrArg List.length cut
  rw [List.length_drop, List.length_cons] at shorter
  omega

/-! ## Pieces -/

/-- No broken placeholder starts within the stretch `s` of the text. -/
def Unbroken (before s rest : List Char) : Prop :=
  ∀ i < s.length, ¬BrokenAt (before ++ (s ++ rest)) (before.length + i)

/-- A stretch is unbroken if both of its parts are. -/
theorem Unbroken.append (first : Unbroken before s (s' ++ rest))
    (second : Unbroken (before ++ s) s' rest) : Unbroken before (s ++ s') rest := by
  intro i inside
  rw [List.append_assoc]
  rcases Nat.lt_or_ge i s.length with early | late
  · exact first i early
  · obtain ⟨j, rfl⟩ := Nat.exists_eq_add_of_le late
    rw [List.length_append] at inside
    have later := second j (Nat.lt_of_add_lt_add_left inside)
    rwa [List.length_append, List.append_assoc, Nat.add_assoc] at later

/-- Where nothing starts, nothing is broken. -/
theorem Quiet.unbroken (quiet : Quiet before s rest) : Unbroken before s rest := by
  intro i inside broken
  cases (quiet i inside).symm.trans broken.starts

/-- A placeholder that is spelled out is closed, if it has a brace. -/
theorem Spelled.not_unclosed (spelled : Spelled name ('$' :: s) rest) : ¬Unclosed (s ++ rest) := by
  rw [unclosed_iff]
  rintro ⟨⟨inner, opened⟩, unclosed⟩
  cases spelled with
  | bare nonempty word _ =>
      obtain ⟨c, cs, rfl⟩ := List.exists_cons_of_ne_nil nonempty
      obtain rfl := (List.cons.inj opened).1
      cases word _ (.head _)
  | braced word => exact unclosed name rest word (by simp)

/-- A placeholder that is spelled out closes its brace, and has no dollar sign behind
its first. -/
theorem Spelled.unbroken (spelled : Spelled name s rest) : Unbroken before s rest := by
  obtain ⟨tail, rfl, _, plain, _⟩ := spelled.exists_cons
  refine Unbroken.append (s := ['$']) (fun i inside broken => ?_) (quiet_of_notMem plain).unbroken
  obtain rfl := Nat.lt_one_iff.mp inside
  refine spelled.not_unclosed ?_
  have unclosed := (brokenAt_iff.mp broken).2
  rwa [Nat.add_zero, List.drop_length_add_append] at unclosed

/-- No piece of a layout is broken. -/
theorem Layout.unbroken {text : List Char} {ps : List Piece}
    (layout : Layout before text ps after) :
    Unbroken before (ps.flatMap Piece.source) after := by
  induction layout with
  | nil => exact fun _ inside => absurd inside (Nat.not_lt_zero _)
  | text _ quiet _ layout ih => exact Unbroken.append (layout.whole ▸ quiet.unbroken) ih
  | placeholder _ spelled layout ih => exact Unbroken.append (layout.whole ▸ spelled.unbroken) ih

/-! ## The whole text -/

/-- A broken start stands behind what is unbroken. -/
theorem Unbroken.length_le {i : Nat} (unbroken : Unbroken [] s rest)
    (broken : BrokenAt (s ++ rest) i) : s.length ≤ i := by
  refine Nat.le_of_not_lt fun inside => ?_
  have sound := unbroken i inside
  rw [List.nil_append, List.length_nil, Nat.zero_add] at sound
  exact sound broken

/-- Either a text is read and has no broken placeholder, or the first of them is
reported. -/
theorem parseWith_ok_or_error (options : Options) (text : String) :
    (∃ t, parseWith options text = .ok t) ∧ (∀ i, ¬BrokenAt text.toList i) ∨
      ∃ i, IsLeast {i | BrokenAt text.toList i} i ∧
        parseWith options text =
          .error (.unbalancedBrace (.behind (text.toList.take (i + 1)))) := by
  obtain ⟨ps, reading⟩ := exists_reading_ofString text
  rw [parseWith]
  cases reading with
  | ended layout read =>
      refine .inl ⟨⟨_, by rw [read]; rfl⟩, fun i broken => ?_⟩
      rw [show text.toList = _ from layout.whole] at broken
      have beyond := layout.unbroken.length_le broken
      have inside := broken.lt_length
      rw [List.append_nil] at inside
      exact absurd beyond (Nat.not_le.mpr inside)
  | @unclosed rest layout unescaped unclosed failed =>
      rw [List.nil_append] at unescaped
      have whole : text.toList = ps.flatMap Piece.source ++ '$' :: rest := layout.whole
      rw [whole]
      refine .inr ⟨(ps.flatMap Piece.source).length, ⟨brokenAt_length unescaped unclosed, ?_⟩, ?_⟩
      · exact fun i broken => layout.unbroken.length_le broken
      · rw [failed, List.take_length_add_append]
        rfl

/-- A text is refused exactly if it has a broken placeholder, in both modes.  The
error is then that the brace of the first one does not close, and its place is
that of the brace. -/
theorem parseWith_eq_error_iff (options : Options) (text : String) :
    ((∃ e, parseWith options text = .error e) ↔ ∃ i, BrokenAt text.toList i) ∧
      ∀ e, parseWith options text = .error e ↔
        ∃ i, IsLeast {i | BrokenAt text.toList i} i ∧
          e = .unbalancedBrace (.behind (text.toList.take (i + 1))) := by
  rcases parseWith_ok_or_error options text with ⟨⟨t, read⟩, sound⟩ | ⟨i, least, failed⟩
  · rw [read]
    refine ⟨⟨?_, fun ⟨i, broken⟩ => absurd broken (sound i)⟩, fun e => ⟨?_, ?_⟩⟩
    · exact fun ⟨_, refused⟩ => nomatch refused
    · exact fun refused => nomatch refused
    · exact fun ⟨i, least, _⟩ => absurd least.1 (sound i)
  · rw [failed]
    refine ⟨⟨fun _ => ⟨i, least.1⟩, fun _ => ⟨_, rfl⟩⟩, fun e => ⟨?_, ?_⟩⟩
    · intro refused
      cases refused
      exact ⟨i, least, rfl⟩
    · rintro ⟨j, least', rfl⟩
      rw [least.unique least']

/-- The brace behind the escaped dollar sign opens nothing.  The letter in the next
one is not ASCII, so it is no part of a name. -/
example : parse "\\$\x7b\n$\x7bé\x7d $\x7b" = .error (.unbalancedBrace ⟨2, 2⟩) := by
  decide +kernel

end MetricLabels.Template
