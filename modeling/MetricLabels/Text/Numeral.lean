/-!
# Numerals

A numeral is an optional minus sign, digits, an optional point with digits, and
an optional exponent mark with an optional sign and digits.  Every run of
digits may be empty.  `Numeral.split` cuts a text behind the longest numeral
that it starts with, part by part, and `Numeral.split_append` says that no
character is lost.
-/

namespace MetricLabels

/-- Whether a numeral may start with the character. -/
def startsNumeral (c : Char) : Bool := c == '-' || c.isDigit

namespace Numeral

/-- Cuts a text behind its first character if that satisfies `p`, and before it
otherwise. -/
def mark (p : Char → Bool) : List Char → List Char × List Char
  | [] => ([], [])
  | c :: cs => if p c then ([c], cs) else ([], c :: cs)

/-- Cuts a text behind the run of digits that it starts with. -/
def digits (text : List Char) : List Char × List Char :=
  (text.takeWhile Char.isDigit, text.dropWhile Char.isDigit)

/-- Cuts a text behind a point and digits, if it starts with a point. -/
def fraction (text : List Char) : List Char × List Char :=
  match mark (· == '.') text with
  | ([], rest) => ([], rest)
  | (point, rest) =>
    let (ds, rest) := digits rest
    (point ++ ds, rest)

/-- Cuts a text behind an exponent, if it starts with the mark of one. -/
def exponent (text : List Char) : List Char × List Char :=
  match mark (fun c => c == 'e' || c == 'E') text with
  | ([], rest) => ([], rest)
  | (e, rest) =>
    let (sign, rest) := mark (fun c => c == '+' || c == '-') rest
    let (ds, rest) := digits rest
    (e ++ sign ++ ds, rest)

/-- Cuts a text behind the numeral that it starts with. -/
def split (text : List Char) : List Char × List Char :=
  let (sign, rest) := mark (· == '-') text
  let (whole, rest) := digits rest
  let (frac, rest) := fraction rest
  let (exp, rest) := exponent rest
  (sign ++ whole ++ frac ++ exp, rest)

/-- The numeral that a text starts with. -/
def first (text : List Char) : List Char := (split text).1

/-! ## Nothing is lost -/

theorem mark_append (p : Char → Bool) (text : List Char) :
    (mark p text).1 ++ (mark p text).2 = text := by
  cases text with
  | nil => rfl
  | cons c cs => by_cases h : p c <;> simp [mark, h]

theorem digits_append (text : List Char) : (digits text).1 ++ (digits text).2 = text :=
  List.takeWhile_append_dropWhile

theorem fraction_append (text : List Char) :
    (fraction text).1 ++ (fraction text).2 = text := by
  have h := mark_append (· == '.') text
  unfold fraction
  split <;> simp_all [digits_append]

theorem exponent_append (text : List Char) :
    (exponent text).1 ++ (exponent text).2 = text := by
  have h := mark_append (fun c => c == 'e' || c == 'E') text
  unfold exponent
  split <;> simp_all [digits_append, mark_append]

/-- The parts of a numeral and what is behind it make up the text. -/
theorem split_append (text : List Char) : (split text).1 ++ (split text).2 = text := by
  simp [split, mark_append, digits_append, fraction_append, exponent_append]

/-- A text that starts like a numeral starts with a numeral of at least one
character. -/
theorem first_ne_nil {c : Char} {cs : List Char} (h : startsNumeral c = true) :
    first (c :: cs) ≠ [] := by
  by_cases hc : c = '-'
  · simp [first, split, mark, hc]
  · have hd : c.isDigit = true := by simpa [startsNumeral, hc] using h
    simp [first, split, mark, hc, digits, hd]

example : first "-1.5e+3x".toList = "-1.5e+3".toList := by decide
example : first "1.e-".toList = "1.e-".toList := by decide
example : first "1-2".toList = "1".toList := by decide

end Numeral

end MetricLabels
