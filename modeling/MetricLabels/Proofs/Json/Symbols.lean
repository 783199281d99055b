import Mathlib.Data.List.Chain
import MetricLabels.Json.Symbol
import MetricLabels.Proofs.Json.Text
import MetricLabels.Proofs.Token.Spelling

/-!
# The symbols of a text read back

A symbol is written in the one way there is, except that a string may be any
literal of its text (`Symbol.Spells`).  It is read back from what is written,
whatever follows it, except that a number goes on with what can stand in a number
(`first?_of_spells`).  So symbols can be written one behind the other as long as no
two numbers meet (`all?_flatten`).
-/

namespace MetricLabels.Json

variable {text rest : List Char} {n : Nat}

/-! ## Digits -/

theorem isDigit_of_mem_digits : ∀ c ∈ digits n, c.isDigit = true := fun _ member =>
  Nat.isDigit_of_mem_toDigits (by decide) (by decide) member

theorem digits_ne_nil : digits n ≠ [] := Nat.toDigits_ne_nil

theorem exists_digits_eq_cons (n : Nat) : ∃ d ds, digits n = d :: ds ∧ d.isDigit = true := by
  obtain ⟨d, ds, same⟩ := List.exists_cons_of_ne_nil (digits_ne_nil (n := n))
  exact ⟨d, ds, same, isDigit_of_mem_digits (n := n) d (same ▸ .head _)⟩

/-- No number but zero is written with a zero first. -/
theorem head?_digits_ne (positive : 0 < n) : (digits n).head? ≠ some '0' := by
  induction n using Nat.strong_induction_on with
  | h n ih =>
    rw [digits, Nat.toDigits_eq_if (by decide)]
    split
    next single =>
      have digit : ∀ n < 10, 0 < n → some n.digitChar ≠ some '0' := by decide
      exact digit n single positive
    next more =>
      rw [List.head?_append_of_ne_nil _ Nat.toDigits_ne_nil]
      exact ih (n / 10) (by omega) (by omega)

/-! ## Numbers -/

/-- No number goes on into the text. -/
def EndsNumber (rest : List Char) : Prop :=
  ∀ c ∈ rest.head?, c.isDigit = false ∧ c ≠ '.' ∧ c ≠ 'e' ∧ c ≠ 'E'

theorem endsNumber_nil : EndsNumber [] := fun _ absent => nomatch absent

/-- Digits are taken up to where the number ends. -/
theorem takeDigits_append {ds : List Char} (nonempty : ds ≠ []) (all : ∀ c ∈ ds, c.isDigit = true)
    (ends : EndsNumber rest) : takeDigits (ds ++ rest) = some (ds, rest) := by
  have run : (ds ++ rest).takeWhile Char.isDigit = ds :=
    Lexeme.takeWhile_append_of_stops all fun c first => (ends c first).1
  have whole := List.takeWhile_append_dropWhile (p := Char.isDigit) (l := ds ++ rest)
  rw [run] at whole
  rw [takeDigits, run, List.append_cancel_left whole]
  cases ds with
  | nil => exact absurd rfl nonempty
  | cons d ds => rfl

/-- A number is written without a zero in front, so all of its digits are taken. -/
theorem takeWhole_digits (n : Nat) (ends : EndsNumber rest) :
    takeWhole (digits n ++ rest) = some (n, rest) := by
  have canonical : ¬((digits n).head? = some '0' ∧ (digits n).length ≠ 1) := by
    rintro ⟨zero, long⟩
    rcases Nat.eq_zero_or_pos n with rfl | positive
    · exact long rfl
    · exact head?_digits_ne positive zero
  rw [takeWhole, takeDigits_append digits_ne_nil isDigit_of_mem_digits ends]
  show (if _ then _ else _) = _
  rw [if_neg canonical, ofDigits_digits]

theorem takeFraction_of_ends (ends : EndsNumber rest) : takeFraction rest = some (false, rest) := by
  unfold takeFraction
  split
  next => exact absurd rfl (ends '.' rfl).2.1
  next => rfl

theorem takeExponent_of_ends (ends : EndsNumber rest) : takeExponent rest = some (false, rest) := by
  unfold takeExponent
  split
  next => rfl
  next c text =>
    obtain ⟨_, _, lower, upper⟩ := ends c rfl
    rw [if_neg (by simp [lower, upper])]

/-- No fraction and no exponent stand behind a whole number. -/
theorem takeUnsigned_digits (n : Nat) (ends : EndsNumber rest) :
    takeUnsigned (digits n ++ rest) = some (some n, rest) := by
  rw [takeUnsigned, takeWhole_digits n ends]
  show (takeFraction rest >>= _) = _
  rw [takeFraction_of_ends ends]
  show (takeExponent rest >>= _) = _
  rw [takeExponent_of_ends ends]
  rfl

/-- A whole number has no sign, and is taken with its value. -/
theorem takeNumber_digits (n : Nat) (ends : EndsNumber rest) :
    takeNumber (digits n ++ rest) = some (some n, rest) := by
  rw [takeNumber.eq_def]
  split
  next minus same =>
    obtain ⟨d, ds, cons, digit⟩ := exists_digits_eq_cons n
    rw [cons] at same
    cases same
    cases digit
  next => exact takeUnsigned_digits n ends

/-! ## Symbols -/

namespace Symbol

/-- Whether the symbol is a number. -/
def isNumber : Symbol → Bool
  | number _ => true
  | _ => false

theorem first?_of_isDigit {d : Char} (digit : d.isDigit = true) :
    first? (d :: rest) =
      (takeNumber (d :: rest)).map fun (value, rest) => (number value, rest) := by
  unfold first?
  split
  case h_11 => rfl
  all_goals
    next same =>
      cases same
      cases digit

/-- The symbol of a whole number is read back if the number ends there. -/
theorem first?_number (n : Nat) (ends : EndsNumber rest) :
    first? (digits n ++ rest) = some (number n, rest) := by
  have read := takeNumber_digits n ends
  obtain ⟨d, ds, cons, digit⟩ := exists_digits_eq_cons n
  rw [cons, List.cons_append] at read ⊢
  rw [first?_of_isDigit digit, read]
  rfl

/-- A quote starts a string, which goes up to where its numbers end. -/
theorem first?_quote {numbers : List Nat} (read : codes text = some (numbers, rest)) :
    first? ('"' :: text) = some (string ((ofCodes numbers).map String.ofList), rest) := by
  show (codes text).map _ = _
  rw [read]
  rfl

/-- What a symbol is written with. -/
inductive Spells : Symbol → List Char → Prop where
  /-- The characters of a string are each written in some way. -/
  | string {text : String} {parts : List (List Char)} :
      List.Forall₂ Escaped text.toList parts →
      Spells (.string (some text)) ('"' :: (parts.flatten ++ ['"']))
  /-- All else is written in one way. -/
  | other {s : Symbol} : (∀ text, s ≠ .string (some text)) → Spells s s.text

/-- The way in which a symbol is written here is one of them. -/
theorem spells_text (s : Symbol) : Spells s s.text := by
  cases s with
  | string text =>
      cases text with
      | some text =>
          show Spells _ (quote text.toList)
          rw [quote, List.cons_append, List.flatMap_def]
          exact .string (escaped_map_escapeChar text.toList)
      | none => exact .other fun _ same => nomatch same
  | _ => exact .other fun _ same => nomatch same

theorem codes_surrogate (rest : List Char) :
    codes ("\\ud800\"".toList ++ rest) = some ([0xD800], rest) := by
  have value : hexValue4? 'd' '8' '0' '0' = some 0xD800 := by decide
  simp [codes, value]

/-- What a symbol is written with is read as that symbol. -/
theorem first?_of_spells {s : Symbol} (spelled : Spells s text)
    (ends : s.isNumber = true → EndsNumber rest) : first? (text ++ rest) = some (s, rest) := by
  cases spelled with
  | @string text parts written =>
      have read := first?_quote (codes_literal written rest)
      rw [ofCodes_map_toNat, Option.map_some, String.ofList_toList] at read
      rw [List.cons_append, List.append_assoc, List.singleton_append, read]
  | other noText =>
      cases s with
      | number value =>
          cases value with
          | some n => exact first?_number n (ends rfl)
          | none =>
              have zero : takeUnsigned ('0' :: rest) = _ := takeUnsigned_digits 0 (ends rfl)
              show ((takeUnsigned ('0' :: rest)).map _).map _ = _
              rw [zero]
              rfl
      | string text =>
          cases text with
          | some text => exact absurd rfl (noText text)
          | none => exact first?_quote (codes_surrogate rest)
      | bool value => cases value <;> rfl
      | _ => rfl

theorem isBlank_of_isDigit {c : Char} (digit : c.isDigit = true) : isBlank c = false := by
  rw [Bool.eq_false_iff]
  intro blank
  simp only [isBlank, Bool.or_eq_true, beq_iff_eq] at blank
  rcases blank with ((rfl | rfl) | rfl) | rfl <;> cases digit

/-- No symbol is spelled by nothing, nor with a blank first. -/
theorem Spells.exists_cons {s : Symbol} (spelled : Spells s text) :
    ∃ c cs, text = c :: cs ∧ isBlank c = false := by
  cases spelled with
  | string => exact ⟨_, _, rfl, rfl⟩
  | other =>
      cases s with
      | number value =>
          cases value with
          | some n =>
              obtain ⟨d, ds, same, digit⟩ := exists_digits_eq_cons n
              exact ⟨d, ds, same, isBlank_of_isDigit digit⟩
          | none => exact ⟨_, _, rfl, rfl⟩
      | string text => cases text <;> exact ⟨_, _, rfl, rfl⟩
      | bool value => cases value <;> exact ⟨_, _, rfl, rfl⟩
      | _ => exact ⟨_, _, rfl, rfl⟩

/-! ## All symbols of a text -/

theorem all?_nil : all? [] = some [] := by
  rw [all?]
  rfl

/-- The symbol that is spelled there comes first, and the others behind it. -/
theorem all?_of_spells {s : Symbol} (spelled : Spells s text)
    (ends : s.isNumber = true → EndsNumber rest) :
    all? (text ++ rest) = (all? rest).map (s :: ·) := by
  obtain ⟨c, cs, same, notBlank⟩ := spelled.exists_cons
  have read := first?_of_spells spelled ends
  have behind : (text ++ rest).dropWhile isBlank = text ++ rest := by
    rw [same, List.cons_append, List.dropWhile_cons_of_neg (by simp [notBlank])]
  rw [all?]
  split
  next none =>
    rw [behind, same] at none
    cases none
  next c' cs' ahead =>
    have found : first? (c' :: cs') = some (s, rest) := by rw [← ahead, behind, read]
    split
    next none => cases none.symm.trans found
    next found' =>
      cases found'.symm.trans found
      rfl

/-- The second symbol can be written behind the first with nothing between them. -/
def CanFollow (s s' : Symbol) : Prop := s.isNumber = true → s'.isNumber = false

/-- A number in front of another symbol ends before it. -/
theorem Spells.endsNumber {s : Symbol} (spelled : Spells s text) (other : s.isNumber = false)
    (rest : List Char) : EndsNumber (text ++ rest) := by
  cases spelled with
  | string => exact fun _ first => Option.some.inj first ▸ by decide
  | other =>
      cases s with
      | number value => cases other
      | string text => cases text <;> exact fun _ first => Option.some.inj first ▸ by decide
      | bool value => cases value <;> exact fun _ first => Option.some.inj first ▸ by decide
      | _ => exact fun _ first => Option.some.inj first ▸ by decide

/-- Symbols are read back from what they are written with, one behind the other. -/
theorem all?_flatten {symbols : List Symbol} {parts : List (List Char)}
    (spelled : List.Forall₂ Spells symbols parts) (chain : symbols.IsChain CanFollow) :
    all? parts.flatten = some symbols := by
  induction spelled with
  | nil => exact all?_nil
  | @cons s part symbols parts first others ih =>
      rw [List.flatten_cons, all?_of_spells first, ih chain.of_cons, Option.map_some]
      intro number
      cases others with
      | nil => exact endsNumber_nil
      | cons second _ =>
          exact second.endsNumber ((List.isChain_cons_cons.mp chain).1 number) _

/-! ## Nothing below the space -/

/-- No symbol is spelled with a character below the space. -/
theorem Spells.space_le {s : Symbol} (spelled : Spells s text) : ∀ c ∈ text, 32 ≤ c.toNat := by
  cases spelled with
  | string written =>
      exact List.forall_mem_cons.mpr ⟨by decide, List.forall_mem_append.mpr
        ⟨space_le_literal written, space_le_of_all rfl⟩⟩
  | other noText =>
      cases s with
      | number value =>
          cases value with
          | some n =>
              intro c member
              have digit := isDigit_of_mem_digits c member
              have zero_le : 48 ≤ c.toNat := of_decide_eq_true (Bool.and_eq_true_iff.mp digit).1
              exact Nat.le_trans (by decide) zero_le
          | none => exact space_le_of_all rfl
      | string text =>
          cases text with
          | some text => exact absurd rfl (noText text)
          | none => exact space_le_of_all rfl
      | bool value => cases value <;> exact space_le_of_all rfl
      | _ => exact space_le_of_all rfl

/-- So no text of symbols has such a character. -/
theorem space_le_flatten {symbols : List Symbol} {parts : List (List Char)}
    (spelled : List.Forall₂ Spells symbols parts) : ∀ c ∈ parts.flatten, 32 ≤ c.toNat := by
  induction spelled with
  | nil => exact fun _ absent => absurd absent List.not_mem_nil
  | cons first _ ih => exact List.forall_mem_append.mpr ⟨first.space_le, ih⟩

end Symbol

end MetricLabels.Json
