import MetricLabels.Text.Name
import MetricLabels.Text.Numeral

/-!
# The three ways to recognize a name

The pattern of label names has the character classes of `isBareName`
(`contains_first`, `contains_rest`), so both accept the same texts
(`isBareName_eq_accepts`).  They also accept exactly the texts that are words
and do not start like a numeral, which is what the tokenizer takes for a name
(`accepts_iff`).
-/

namespace MetricLabels

/-! ## Classes of characters -/

theorem isUpper_eq (c : Char) : c.isUpper = ('A' ≤ c && c ≤ 'Z') :=
  Bool.decide_and ('A' ≤ c) (c ≤ 'Z')

theorem isAlpha_eq (c : Char) :
    c.isAlpha = (('A' ≤ c && c ≤ 'Z') || ('a' ≤ c && c ≤ 'z')) := by
  rw [← isUpper_eq]
  rfl

theorem isDigit_eq (c : Char) : c.isDigit = ('0' ≤ c && c ≤ '9') := rfl

theorem isWord_eq (c : Char) : isWord c = (c.isAlpha || (c.isDigit || c == '_')) :=
  Bool.or_assoc c.isAlpha c.isDigit (c == '_')

theorem beq_eq_range (c d : Char) : (c == d) = (d ≤ c && c ≤ d) := by
  rw [Bool.eq_iff_iff, Bool.and_eq_true, decide_eq_true_iff, decide_eq_true_iff, beq_iff_eq]
  exact ⟨fun h => h ▸ ⟨Char.le_refl _, Char.le_refl _⟩, fun h => Char.le_antisymm h.2 h.1⟩

/-- The first class of the pattern has the letters and the underscore. -/
theorem contains_first (c : Char) :
    NamePattern.labelName.first.contains c = (c.isAlpha || c == '_') := by
  rw [isAlpha_eq, beq_eq_range, Bool.or_assoc, ← Bool.or_false ('_' ≤ c && _)]
  rfl

/-- The class behind it has the word characters. -/
theorem contains_rest (c : Char) : NamePattern.labelName.rest.contains c = isWord c := by
  rw [isWord_eq, isAlpha_eq, beq_eq_range, Bool.or_assoc, ← Bool.or_false ('_' ≤ c && _)]
  rfl

theorem startsNumeral_of_isAlpha {c : Char} (alpha : c.isAlpha = true) :
    startsNumeral c = false := by
  have letter : ('A'.toNat ≤ c.toNat ∧ c.toNat ≤ 'Z'.toNat) ∨
      ('a'.toNat ≤ c.toNat ∧ c.toNat ≤ 'z'.toNat) := by
    rw [isAlpha_eq, Bool.or_eq_true, Bool.and_eq_true, Bool.and_eq_true] at alpha
    simpa [Char.le_def, UInt32.le_iff_toNat_le] using alpha
  rw [Bool.eq_false_iff]
  intro numeral
  rw [startsNumeral, isDigit_eq, Bool.or_eq_true, beq_iff_eq, Bool.and_eq_true] at numeral
  rcases numeral with rfl | numeral
  · cases alpha
  · have digit : '0'.toNat ≤ c.toNat ∧ c.toNat ≤ '9'.toNat := by
      simpa [Char.le_def, UInt32.le_iff_toNat_le] using numeral
    simp only [Char.reduceToNat] at letter digit
    omega

/-- A name starts with a word character that no numeral starts with. -/
theorem startsName_iff (c : Char) :
    (c.isAlpha || c == '_') = true ↔ isWord c = true ∧ startsNumeral c = false := by
  rw [isWord_eq, Bool.or_eq_true, Bool.or_eq_true, Bool.or_eq_true, beq_iff_eq]
  constructor
  · rintro (alpha | rfl)
    · exact ⟨.inl alpha, startsNumeral_of_isAlpha alpha⟩
    · exact ⟨.inr (.inr rfl), rfl⟩
  · rintro ⟨alpha | digit | underscore, notNumeral⟩
    · exact .inl alpha
    · rw [startsNumeral, digit, Bool.or_true] at notNumeral
      cases notNumeral
    · exact .inr underscore

/-! ## Names -/

/-- The pattern takes a text apart at its first character. -/
theorem accepts_eq (name : String) :
    NamePattern.labelName.accepts name =
      match name.toList with
      | [] => false
      | c :: cs => (c.isAlpha || c == '_') && cs.all isWord := by
  have rest : NamePattern.labelName.rest.contains = isWord := funext contains_rest
  rw [NamePattern.accepts]
  cases name.toList with
  | nil => rfl
  | cons c cs =>
      show (NamePattern.labelName.first.contains c && _) = _
      rw [contains_first, rest]

/-- A text can stand on its own as a name exactly if it fits the pattern of label
names. -/
theorem isBareName_eq_accepts (name : String) :
    isBareName name = NamePattern.labelName.accepts name := by
  rw [accepts_eq, isBareName]
  cases name.toList with
  | nil => rfl
  | cons c cs =>
      show ((c.isAlpha || c == '_') && (c :: cs).all isWord) = ((c.isAlpha || c == '_') && _)
      rw [List.all_cons, ← Bool.and_assoc]
      cases starts : (c.isAlpha || c == '_') with
      | false => rfl
      | true => rw [((startsName_iff c).mp starts).1, Bool.and_true]

/-- The names are the words that do not start like a numeral. -/
theorem accepts_iff {name : String} :
    NamePattern.labelName.accepts name = true ↔
      ∃ c cs, name.toList = c :: cs ∧ startsNumeral c = false ∧
        ∀ x ∈ c :: cs, isWord x = true := by
  rw [accepts_eq]
  cases name.toList with
  | nil => simp
  | cons c cs =>
      show ((c.isAlpha || c == '_') && cs.all isWord) = true ↔ _
      rw [Bool.and_eq_true, startsName_iff, List.all_eq_true]
      constructor
      · rintro ⟨⟨word, notNumeral⟩, all⟩
        exact ⟨c, cs, rfl, notNumeral, List.forall_mem_cons.mpr ⟨word, all⟩⟩
      · rintro ⟨_, _, same, notNumeral, all⟩
        cases same
        obtain ⟨word, all⟩ := List.forall_mem_cons.mp all
        exact ⟨⟨word, notNumeral⟩, all⟩

end MetricLabels
