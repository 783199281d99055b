import Mathlib.Data.List.Forall2
import Mathlib.Tactic.SplitIfs
import MetricLabels.Json.Text

/-!
# JSON strings read back

There are three ways to write a character: with a short escape, with its number
and as itself (`Escaped`).  Each of them is read as the number of the character
(`codes_escaped`), and no character is half of a surrogate pair, so a text is
read back from its literal, whichever way each of its characters is written
(`codes_literal`, `ofCodes_map_toNat`).

No way to write a character has one below the space in it
(`Escaped.space_le`).
-/

namespace MetricLabels.Json

variable {c e : Char} {s text rest : List Char}

/-! ## Writing a character -/

/-- The ways to write a character in a string. -/
inductive Escaped : Char → List Char → Prop where
  | short {c e : Char} : shortEscape? e = some c → Escaped c ['\\', e]
  | number {c : Char} : c < ' ' →
      Escaped c ['\\', 'u', '0', '0', hexDigit (c.toNat / 16), hexDigit (c.toNat % 16)]
  | plain {c : Char} : c ≠ '"' → c ≠ '\\' → ¬c < ' ' → Escaped c [c]

/-- What is written here for a character is one of the ways to write it. -/
theorem escaped (c : Char) : Escaped c (escapeChar c) := by
  unfold escapeChar
  split_ifs with quote backslash backspace formFeed lineFeed carriageReturn tab below
  · rw [quote]
    exact .short rfl
  · rw [backslash]
    exact .short rfl
  · rw [backspace]
    exact .short rfl
  · rw [formFeed]
    exact .short rfl
  · rw [lineFeed]
    exact .short rfl
  · rw [carriageReturn]
    exact .short rfl
  · rw [tab]
    exact .short rfl
  · exact .number below
  · exact .plain quote backslash below

/-! ## Reading a character -/

theorem hexValue?_hexDigit : ∀ n < 16, hexValue? (hexDigit n) = some n := by decide

/-- Two digits behind two zeros make a number below 256. -/
theorem hexValue4?_hexDigit {n : Nat} (below : n < 256) :
    hexValue4? '0' '0' (hexDigit (n / 16)) (hexDigit (n % 16)) = some n := by
  have high := hexValue?_hexDigit (n / 16) (by omega)
  have low := hexValue?_hexDigit (n % 16) (by omega)
  have zero : hexValue? '0' = some 0 := rfl
  simp only [hexValue4?, zero, high, low, Option.bind_eq_bind, Option.bind_some, Option.pure_def,
    Option.some.injEq]
  omega

/-- However a character is written, its number is read. -/
theorem codes_escaped (written : Escaped c s) (rest : List Char) :
    codes (s ++ rest) = (do
      let (numbers, rest) ← codes rest
      return (c.toNat :: numbers, rest)) := by
  cases written with
  | short short =>
      rename_i e
      have other : e ≠ 'u' := by
        rintro rfl
        cases short
      simp [codes, short, other]
  | number below =>
      have small : c.toNat < 256 := Nat.lt_trans below (by decide)
      simp [codes, hexValue4?_hexDigit small]
  | plain notQuote notBackslash notBelow =>
      simp [codes, notBackslash, notBelow]

/-- A literal is read up to its closing quote. -/
theorem codes_literal {parts : List (List Char)} (written : List.Forall₂ Escaped text parts)
    (rest : List Char) :
    codes (parts.flatten ++ '"' :: rest) = some (text.map Char.toNat, rest) := by
  induction written with
  | nil => rfl
  | cons first _ ih =>
      rw [List.flatten_cons, List.append_assoc, codes_escaped first, ih]
      rfl

/-- The literal that is written here is one of those that are read. -/
theorem escaped_map_escapeChar (text : List Char) :
    List.Forall₂ Escaped text (text.map escapeChar) := by
  rw [List.forall₂_map_right_iff, List.forall₂_same]
  exact fun c _ => escaped c

/-! ## Characters and surrogates -/

/-- No character has the number of half a surrogate pair. -/
theorem isSurrogate_toNat (c : Char) :
    isHighSurrogate c.toNat = false ∧ isLowSurrogate c.toNat = false := by
  have valid : c.toNat < 0xD800 ∨ 0xDFFF < c.toNat ∧ c.toNat < 0x110000 := c.valid
  simp only [isHighSurrogate, isLowSurrogate, Bool.and_eq_false_iff, decide_eq_false_iff_not]
  omega

/-- The numbers of characters are the characters again. -/
theorem ofCodes_map_toNat (text : List Char) : ofCodes (text.map Char.toNat) = some text := by
  induction text with
  | nil => rfl
  | cons c text ih =>
      obtain ⟨high, low⟩ := isSurrogate_toNat c
      rw [List.map_cons, ofCodes.eq_def]
      simp [high, low, ih, Char.ofNat_toNat]

/-! ## Nothing below the space -/

/-- What is written for a character has no character below the space, not even if
that is one itself. -/
theorem Escaped.space_le (written : Escaped c s) : ∀ x ∈ s, 32 ≤ x.toNat := by
  cases written with
  | @short e short =>
      have escapes : 32 ≤ e.toNat := by
        rw [← Nat.not_lt]
        intro small
        have none : ∀ n < 32, shortEscape? (Char.ofNat n) = Option.none := by decide
        have absent := none e.toNat small
        rw [Char.ofNat_toNat, short] at absent
        cases absent
      simpa using escapes
  | number below =>
      have digit : ∀ n < 16, 32 ≤ (hexDigit n).toNat := by decide
      have small : c.toNat < 32 := below
      simp [digit (c.toNat / 16) (by omega), digit (c.toNat % 16) (by omega)]
  | plain _ _ notBelow =>
      have large : ¬c.toNat < 32 := notBelow
      simpa using large

/-- Below the space there is nothing in a text that has been looked through. -/
theorem space_le_of_all (all : (s.all fun c => 32 ≤ c.toNat) = true) : ∀ c ∈ s, 32 ≤ c.toNat :=
  fun c member => of_decide_eq_true (List.all_eq_true.mp all c member)

/-- A literal has no character below the space. -/
theorem space_le_literal {parts : List (List Char)} (written : List.Forall₂ Escaped text parts) :
    ∀ x ∈ parts.flatten, 32 ≤ x.toNat := by
  induction written with
  | nil => exact fun _ absent => absurd absent List.not_mem_nil
  | cons first _ ih => exact List.forall_mem_append.mpr ⟨first.space_le, ih⟩

end MetricLabels.Json
