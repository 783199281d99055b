/-!
# JSON numbers

A number is an optional minus sign, digits, an optional point with digits, and
an optional exponent mark with an optional sign and digits.  Every run of digits
has at least one, and the first run starts with a zero only if that is all of
it.  A number has a value here if it is nothing but the first run.
-/

namespace MetricLabels.Json

/-- The digits of a number. -/
def digits (n : Nat) : List Char := Nat.toDigits 10 n

/-- The number that digits make. -/
def ofDigits (ds : List Char) : Nat := Nat.ofDigitChars 10 ds 0

theorem ofDigits_digits (n : Nat) : ofDigits (digits n) = n :=
  Nat.ofDigitChars_toDigits (by decide) (by decide)

/-- Reads a run of one digit or more. -/
def takeDigits (text : List Char) : Option (List Char × List Char) :=
  match text.takeWhile Char.isDigit with
  | [] => none
  | d :: ds => some (d :: ds, text.dropWhile Char.isDigit)

/-- Reads the first run of digits. -/
def takeWhole (text : List Char) : Option (Nat × List Char) := do
  let (ds, rest) ← takeDigits text
  if ds.head? = some '0' ∧ ds.length ≠ 1 then none else some (ofDigits ds, rest)

/-- Reads a fraction if there is one, and tells whether there is. -/
def takeFraction : List Char → Option (Bool × List Char)
  | '.' :: text => (takeDigits text).map fun (_, rest) => (true, rest)
  | text => some (false, text)

/-- Reads an exponent if there is one, and tells whether there is. -/
def takeExponent : List Char → Option (Bool × List Char)
  | [] => some (false, [])
  | c :: text =>
    if c = 'e' ∨ c = 'E' then
      let digits := match text with
        | '+' :: text => text
        | '-' :: text => text
        | text => text
      (takeDigits digits).map fun (_, rest) => (true, rest)
    else some (false, c :: text)

/-- Reads a number without a sign, and its value if it is whole. -/
def takeUnsigned (text : List Char) : Option (Option Nat × List Char) := do
  let (whole, rest) ← takeWhole text
  let (fraction, rest) ← takeFraction rest
  let (exponent, rest) ← takeExponent rest
  return (if fraction || exponent then none else some whole, rest)

/-- Reads a number, and its value if it is whole and has no sign. -/
def takeNumber : List Char → Option (Option Nat × List Char)
  | '-' :: text => (takeUnsigned text).map fun (_, rest) => (none, rest)
  | text => takeUnsigned text

/-! ## What follows is shorter -/

theorem length_lt_of_takeDigits {text ds rest : List Char}
    (h : takeDigits text = some (ds, rest)) : rest.length < text.length := by
  have parts := congrArg List.length
    (List.takeWhile_append_dropWhile (p := Char.isDigit) (l := text))
  unfold takeDigits at h
  split at h
  next => cases h
  next d ds found =>
    cases h
    simp [found] at parts
    omega

theorem length_lt_of_takeWhole {text rest : List Char} {n : Nat}
    (h : takeWhole text = some (n, rest)) : rest.length < text.length := by
  simp only [takeWhole, Option.bind_eq_bind, Option.bind_eq_some_iff] at h
  obtain ⟨⟨ds, rest'⟩, read, h⟩ := h
  split at h
  next => cases h
  next =>
    cases h
    exact length_lt_of_takeDigits read

theorem length_le_of_takeFraction {text rest : List Char} {found : Bool}
    (h : takeFraction text = some (found, rest)) : rest.length ≤ text.length := by
  unfold takeFraction at h
  split at h
  next text =>
    obtain ⟨⟨ds, rest'⟩, read, h⟩ := Option.map_eq_some_iff.mp h
    cases h
    exact Nat.le_succ_of_le (Nat.le_of_lt (length_lt_of_takeDigits read))
  next =>
    cases h
    exact Nat.le_refl _

theorem length_le_of_takeExponent {text rest : List Char} {found : Bool}
    (h : takeExponent text = some (found, rest)) : rest.length ≤ text.length := by
  unfold takeExponent at h
  split at h
  next =>
    cases h
    exact Nat.le_refl _
  next c text =>
    split at h
    next =>
      obtain ⟨⟨ds, rest'⟩, read, h⟩ := Option.map_eq_some_iff.mp h
      cases h
      have shorter := length_lt_of_takeDigits read
      split at shorter <;> simp_all <;> omega
    next =>
      cases h
      exact Nat.le_refl _

theorem length_lt_of_takeUnsigned {text rest : List Char} {value : Option Nat}
    (h : takeUnsigned text = some (value, rest)) : rest.length < text.length := by
  simp only [takeUnsigned, Option.bind_eq_bind, Option.bind_eq_some_iff] at h
  obtain ⟨⟨n, r₁⟩, whole, ⟨f, r₂⟩, fraction, ⟨e, r₃⟩, exponent, h⟩ := h
  cases h
  exact Nat.lt_of_le_of_lt (length_le_of_takeExponent exponent)
    (Nat.lt_of_le_of_lt (length_le_of_takeFraction fraction) (length_lt_of_takeWhole whole))

/-- A number takes characters. -/
theorem length_lt_of_takeNumber {text rest : List Char} {value : Option Nat}
    (h : takeNumber text = some (value, rest)) : rest.length < text.length := by
  unfold takeNumber at h
  split at h
  next text =>
    obtain ⟨⟨v, rest'⟩, read, h⟩ := Option.map_eq_some_iff.mp h
    cases h
    exact Nat.lt_succ_of_lt (length_lt_of_takeUnsigned read)
  next => exact length_lt_of_takeUnsigned h

example : takeNumber "120,".toList = some (some 120, [',']) := by decide
example : takeNumber "-1.5e3".toList = some (none, []) := by decide
example : takeNumber "01".toList = none := by decide

end MetricLabels.Json
