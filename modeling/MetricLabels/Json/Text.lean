/-!
# JSON strings

A string is written between double quotes.  A double quote, a backslash and the
characters below the space are written as escapes, the short ones where there
is one, and everything else stands for itself (`escapeChar`).

Reading has two steps.  `codes` reads the literal up to its closing quote as a
list of numbers, one for a character and one for an escape.  `ofCodes` joins two
surrogates to one character.  It fails where one of them is alone, which no
other number can cause.
-/

namespace MetricLabels.Json

/-! ## Writing -/

/-- The digit of a number below sixteen. -/
def hexDigit (n : Nat) : Char := Char.ofNat (if n < 10 then 48 + n else 87 + n)

/-- A character as it is written in a string. -/
def escapeChar (c : Char) : List Char :=
  if c = '"' then ['\\', '"']
  else if c = '\\' then ['\\', '\\']
  else if c = '\x08' then ['\\', 'b']
  else if c = '\x0c' then ['\\', 'f']
  else if c = '\n' then ['\\', 'n']
  else if c = '\r' then ['\\', 'r']
  else if c = '\t' then ['\\', 't']
  else if c < ' ' then ['\\', 'u', '0', '0', hexDigit (c.toNat / 16), hexDigit (c.toNat % 16)]
  else [c]

/-- A string literal. -/
def quote (text : List Char) : List Char := '"' :: text.flatMap escapeChar ++ ['"']

/-! ## Reading -/

/-- The number of a hexadecimal digit of either case. -/
def hexValue? (c : Char) : Option Nat :=
  if '0' ≤ c ∧ c ≤ '9' then some (c.toNat - 48)
  else if 'a' ≤ c ∧ c ≤ 'f' then some (c.toNat - 87)
  else if 'A' ≤ c ∧ c ≤ 'F' then some (c.toNat - 55)
  else none

/-- The number that four hexadecimal digits make. -/
def hexValue4? (a b c d : Char) : Option Nat := do
  return ((← hexValue? a) * 16 + (← hexValue? b)) * 256 +
    ((← hexValue? c) * 16 + (← hexValue? d))

/-- The character that a short escape stands for. -/
def shortEscape? : Char → Option Char
  | '"' => some '"'
  | '\\' => some '\\'
  | '/' => some '/'
  | 'b' => some '\x08'
  | 'f' => some '\x0c'
  | 'n' => some '\n'
  | 'r' => some '\r'
  | 't' => some '\t'
  | _ => none

/-- Reads the rest of a string literal, from behind the opening quote.  The
numbers come with what follows the closing quote. -/
def codes : List Char → Option (List Nat × List Char)
  | [] => none
  | '"' :: rest => some ([], rest)
  | '\\' :: 'u' :: a :: b :: c :: d :: rest => do
      let code ← hexValue4? a b c d
      let (more, rest) ← codes rest
      return (code :: more, rest)
  | '\\' :: c :: rest => do
      let char ← shortEscape? c
      let (more, rest) ← codes rest
      return (char.toNat :: more, rest)
  | c :: rest =>
      if c = '\\' ∨ c < ' ' then none
      else do
        let (more, rest) ← codes rest
        return (c.toNat :: more, rest)

/-- Whether the number is the first half of a surrogate pair. -/
def isHighSurrogate (code : Nat) : Bool := 0xD800 ≤ code && code < 0xDC00

/-- Whether the number is the second half of a surrogate pair. -/
def isLowSurrogate (code : Nat) : Bool := 0xDC00 ≤ code && code < 0xE000

/-- The text of a list of numbers.  Two halves of a surrogate pair make one
character. -/
def ofCodes : List Nat → Option (List Char)
  | [] => some []
  | code :: rest =>
    if isHighSurrogate code then
      match rest with
      | [] => none
      | low :: rest =>
        if isLowSurrogate low then
          (ofCodes rest).map
            (Char.ofNat (0x10000 + (code - 0xD800) * 0x400 + (low - 0xDC00)) :: ·)
        else none
    else if isLowSurrogate code then none
    else (ofCodes rest).map (Char.ofNat code :: ·)

/-- What follows a string literal is shorter than the literal with it. -/
theorem length_lt_of_codes {text rest : List Char} {numbers : List Nat}
    (h : codes text = some (numbers, rest)) : rest.length < text.length := by
  fun_induction codes text generalizing numbers rest with
  | case1 => simp at h
  | case2 => simp_all
  | case3 a b c d more ih =>
      simp only [Option.bind_eq_bind, Option.bind_eq_some_iff] at h
      obtain ⟨_, _, ⟨_, _⟩, read, h⟩ := h
      have shorter := ih read
      simp_all
      omega
  | case4 c more _ ih =>
      simp only [Option.bind_eq_bind, Option.bind_eq_some_iff] at h
      obtain ⟨_, _, ⟨_, _⟩, read, h⟩ := h
      have shorter := ih read
      simp_all
      omega
  | case5 => simp_all
  | case6 c more _ _ _ _ ih =>
      simp only [Option.bind_eq_bind, Option.bind_eq_some_iff] at h
      obtain ⟨⟨_, _⟩, read, h⟩ := h
      have shorter := ih read
      simp_all
      omega

end MetricLabels.Json
