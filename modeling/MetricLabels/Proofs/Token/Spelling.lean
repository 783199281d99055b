import MetricLabels.Proofs.Text.QuotedBody
import MetricLabels.Token.Lexeme

/-!
# How lexemes are spelled

`Spells l s rest` says that the characters `s` spell the lexeme `l` if `rest` is
what stands behind them.  The rest counts: a word and a numeral are as long as
they can be, and so is an operator.

A text that starts with no blank starts with the lexeme that is spelled there
(`exists_spells`), and with no other (`Spells.first_eq`).
-/

namespace MetricLabels

/-- How operators and punctuation marks are written. -/
def Token.Kind.sign? : Kind → Option (List Char)
  | .eq => some ['=']
  | .neq => some ['!', '=']
  | .eqRegexp => some ['=', '~']
  | .neqRegexp => some ['!', '~']
  | .lbrace => some ['\x7b']
  | .rbrace => some ['\x7d']
  | .lparen => some ['(']
  | .rparen => some [')']
  | .comma => some [',']
  | _ => none

namespace Lexeme

/-- With `rest` behind them, the characters spell the lexeme. -/
inductive Spells : Lexeme → List Char → List Char → Prop where
  | numeral {c : Char} {cs rest : List Char} :
      startsNumeral c = true → Numeral.first (c :: cs ++ rest) = c :: cs →
      Spells (plain .number (c :: cs)) (c :: cs) rest
  | word {c : Char} {cs rest : List Char} :
      startsNumeral c = false → (∀ x ∈ c :: cs, isWord x = true) →
      (∀ x ∈ rest.head?, isWord x = false) →
      Spells (plain .ident (c :: cs)) (c :: cs) rest
  | quoted {quote : Char} {body text rest : List Char} {ending : Quoted.Ending} :
      Quoted.isQuote quote = true → Quoted.Written quote body text → ending.Leaves rest →
      Spells (ofQuoted ⟨text, body.length, ending⟩) (quote :: (body ++ ending.source quote)) rest
  | sign (kind : Token.Kind) {s rest : List Char} :
      kind.sign? = some s → (kind = .eq → rest.head? ≠ some '~') →
      Spells (bare kind s.length) s rest
  | stray {c : Char} {rest : List Char} :
      isBlank c = false → startsNumeral c = false → isWord c = false →
      Quoted.isQuote c = false →
      (∀ (kind : Token.Kind) (s : List Char), kind.sign? = some s → ¬s <+: c :: rest) →
      Spells (plain .invalid [c]) [c] rest

variable {l : Lexeme} {s rest : List Char}

/-! ## The longest run -/

theorem takeWhile_append_of_stops {p : Char → Bool} {run : List Char}
    (all : ∀ x ∈ run, p x = true) (stops : ∀ x ∈ rest.head?, p x = false) :
    (run ++ rest).takeWhile p = run := by
  rw [List.takeWhile_append_of_pos all]
  cases rest with
  | nil => rw [List.takeWhile_nil, List.append_nil]
  | cons x rest => rw [List.takeWhile_cons_of_neg (by simp [stops x rfl]), List.append_nil]

/-- A text has one longest run of a class. -/
theorem run_unique {p : Char → Bool} {run run' rest' : List Char}
    (all : ∀ x ∈ run, p x = true) (stops : ∀ x ∈ rest.head?, p x = false)
    (all' : ∀ x ∈ run', p x = true) (stops' : ∀ x ∈ rest'.head?, p x = false)
    (same : run ++ rest = run' ++ rest') : run = run' := by
  rw [← takeWhile_append_of_stops all stops, same, takeWhile_append_of_stops all' stops']

theorem stops_dropWhile (p : Char → Bool) (text : List Char) :
    ∀ x ∈ (text.dropWhile p).head?, p x = false := by
  intro x next
  have head := List.head?_dropWhile_not p text
  rw [next] at head
  simpa using head

/-! ## Classes of characters -/

theorem other_classes_of_isQuote {c : Char} (quoted : Quoted.isQuote c = true) :
    startsNumeral c = false ∧ isWord c = false ∧ isBlank c = false := by
  obtain rfl | rfl : c = '"' ∨ c = '\'' := by simpa [Quoted.isQuote] using quoted
  · exact ⟨rfl, rfl, rfl⟩
  · exact ⟨rfl, rfl, rfl⟩

/-- A class that has none of the three blanks has no character in common with
them. -/
theorem isBlank_of_class {k : Char → Bool} (space : k ' ' = false) (tab : k '\t' = false)
    (lineFeed : k '\n' = false) {c : Char} (member : k c = true) : isBlank c = false := by
  rw [Bool.eq_false_iff]
  intro blank
  obtain (rfl | rfl) | rfl : (c = ' ' ∨ c = '\t') ∨ c = '\n' := by simpa [isBlank] using blank
  · exact Bool.noConfusion (member.symm.trans space)
  · exact Bool.noConfusion (member.symm.trans tab)
  · exact Bool.noConfusion (member.symm.trans lineFeed)

theorem isBlank_of_isWord {c : Char} : isWord c = true → isBlank c = false :=
  isBlank_of_class rfl rfl rfl

theorem isBlank_of_startsNumeral {c : Char} : startsNumeral c = true → isBlank c = false :=
  isBlank_of_class rfl rfl rfl

/-! ## What is spelled is read -/

theorem first_symbol {c : Char} (cs : List Char) (notNumeral : startsNumeral c = false)
    (notWord : isWord c = false) (notQuote : Quoted.isQuote c = false) :
    first (c :: cs) = symbol c cs.head? := by
  rw [first, if_neg (by simp [notNumeral]), if_neg (by simp [notWord]),
    if_neg (by simp [notQuote])]

/-- A character that starts no sign is a symbol on its own. -/
theorem symbol_eq_plain {c : Char} {cs : List Char}
    (unsigned : ∀ (kind : Token.Kind) (s : List Char), kind.sign? = some s → ¬s <+: c :: cs) :
    symbol c cs.head? = plain .invalid [c] := by
  have starts (kind : Token.Kind) (s rest : List Char) (sign : kind.sign? = some s)
      (same : c :: cs = s ++ rest) : False := unsigned kind s sign ⟨rest, same.symm⟩
  unfold symbol
  split
  next => exact (starts .eq _ cs rfl rfl).elim
  next => exact (starts .eq _ cs rfl rfl).elim
  next h =>
    obtain ⟨rest, rfl⟩ := List.head?_eq_some_iff.mp h
    exact (starts .neq _ rest rfl rfl).elim
  next h =>
    obtain ⟨rest, rfl⟩ := List.head?_eq_some_iff.mp h
    exact (starts .neqRegexp _ rest rfl rfl).elim
  next => exact (starts .lbrace _ cs rfl rfl).elim
  next => exact (starts .rbrace _ cs rfl rfl).elim
  next => exact (starts .lparen _ cs rfl rfl).elim
  next => exact (starts .rparen _ cs rfl rfl).elim
  next => exact (starts .comma _ cs rfl rfl).elim
  next => rfl

/-- A sign is read as it is written, if no tilde makes another of it. -/
theorem first_sign {kind : Token.Kind} (sign : kind.sign? = some s)
    (alone : kind = .eq → rest.head? ≠ some '~') : first (s ++ rest) = bare kind s.length := by
  cases kind with
  | eq =>
      cases sign
      have notTilde := alone rfl
      show symbol '=' rest.head? = bare .eq 1
      cases next : rest.head? with
      | none => rfl
      | some c =>
          have other : c ≠ '~' := fun same => notTilde (same ▸ next)
          unfold symbol
          split <;> simp_all
  | _ => cases sign <;> rfl

/-- What is spelled at the start of a text is read there. -/
theorem Spells.first_eq (spelled : Spells l s rest) : first (s ++ rest) = l := by
  cases spelled with
  | numeral numeral longest =>
      rw [List.cons_append, first, if_pos numeral, ← List.cons_append, longest]
  | @word c cs _ notNumeral word stops =>
      rw [List.cons_append, first, if_neg (by simp [notNumeral]), if_pos (word c (.head _)),
        ← List.cons_append, takeWhile_append_of_stops word stops]
  | @quoted quote body text _ ending isQuote written leaves =>
      obtain ⟨notNumeral, notWord, _⟩ := other_classes_of_isQuote isQuote
      rw [List.cons_append, first, if_neg (by simp [notNumeral]), if_neg (by simp [notWord]),
        if_pos isQuote, List.append_assoc, Quoted.scan_append isQuote written leaves]
  | sign _ sign alone => exact first_sign sign alone
  | stray _ notNumeral notWord notQuote unsigned =>
      rw [List.singleton_append, first_symbol _ notNumeral notWord notQuote]
      exact symbol_eq_plain unsigned

/-- A lexeme has as many characters as spell it. -/
theorem Spells.length_eq (spelled : Spells l s rest) : s.length = l.size := by
  cases spelled with
  | quoted =>
      rw [List.length_cons, List.length_append, Quoted.Ending.length_source]
      unfold ofQuoted
      split <;> simp [Quoted.Body.size, *]
  | _ => rfl

/-! ## What is read is spelled -/

/-- A numeral is spelled by what is read of it. -/
theorem spells_numeral {c : Char} (cs : List Char) (numeral : startsNumeral c = true) :
    ∃ s rest, c :: cs = s ++ rest ∧ Spells (plain .number (Numeral.first (c :: cs))) s rest := by
  have cut := Numeral.split_append (c :: cs)
  rcases same : Numeral.first (c :: cs) with _ | ⟨x, xs⟩
  · exact absurd same (Numeral.first_ne_nil numeral)
  · have whole : c :: cs = x :: xs ++ (Numeral.split (c :: cs)).2 := by
      rw [← same, Numeral.first, cut]
    obtain rfl : c = x := (List.cons.inj whole).1
    exact ⟨_, _, whole, .numeral numeral (by rw [← whole, same])⟩

/-- So is a word. -/
theorem spells_word {c : Char} (cs : List Char) (notNumeral : startsNumeral c = false)
    (word : isWord c = true) :
    ∃ s rest, c :: cs = s ++ rest ∧ Spells (plain .ident ((c :: cs).takeWhile isWord)) s rest := by
  refine ⟨_, (c :: cs).dropWhile isWord, List.takeWhile_append_dropWhile.symm, ?_⟩
  rw [List.takeWhile_cons_of_pos word]
  refine .word notNumeral ?_ (stops_dropWhile isWord _)
  intro x member
  rw [← List.takeWhile_cons_of_pos word] at member
  exact List.all_eq_true.mp List.all_takeWhile x member

/-- So is quoted text, however it ends. -/
theorem spells_quoted {c : Char} (cs : List Char) (quoted : Quoted.isQuote c = true) :
    ∃ s rest, c :: cs = s ++ rest ∧ Spells (ofQuoted (Quoted.scan c cs)) s rest := by
  obtain ⟨body, rest, cut, written, width, leaves⟩ := Quoted.exists_written c cs
  have same : Quoted.scan c cs =
      ⟨(Quoted.scan c cs).text, body.length, (Quoted.scan c cs).ending⟩ := by
    rw [← width]
  refine ⟨c :: (body ++ (Quoted.scan c cs).ending.source c), rest, ?_, ?_⟩
  · rw [List.cons_append, List.append_assoc, ← cut]
  · rw [same]
    exact .quoted quoted written leaves

/-- What starts none of these is a sign, or a character that stands for nothing. -/
theorem spells_symbol {c : Char} (cs : List Char) (notBlank : isBlank c = false)
    (notNumeral : startsNumeral c = false) (notWord : isWord c = false)
    (notQuote : Quoted.isQuote c = false) :
    ∃ s rest, c :: cs = s ++ rest ∧ Spells (symbol c cs.head?) s rest := by
  unfold symbol
  split
  next h =>
    obtain ⟨rest, rfl⟩ := List.head?_eq_some_iff.mp h
    exact ⟨_, rest, rfl, .sign .eqRegexp rfl Token.Kind.noConfusion⟩
  next notTilde => exact ⟨_, cs, rfl, .sign .eq rfl fun _ => notTilde⟩
  next h =>
    obtain ⟨rest, rfl⟩ := List.head?_eq_some_iff.mp h
    exact ⟨_, rest, rfl, .sign .neq rfl Token.Kind.noConfusion⟩
  next h =>
    obtain ⟨rest, rfl⟩ := List.head?_eq_some_iff.mp h
    exact ⟨_, rest, rfl, .sign .neqRegexp rfl Token.Kind.noConfusion⟩
  next => exact ⟨_, cs, rfl, .sign .lbrace rfl Token.Kind.noConfusion⟩
  next => exact ⟨_, cs, rfl, .sign .rbrace rfl Token.Kind.noConfusion⟩
  next => exact ⟨_, cs, rfl, .sign .lparen rfl Token.Kind.noConfusion⟩
  next => exact ⟨_, cs, rfl, .sign .rparen rfl Token.Kind.noConfusion⟩
  next => exact ⟨_, cs, rfl, .sign .comma rfl Token.Kind.noConfusion⟩
  next =>
    refine ⟨_, cs, rfl, .stray notBlank notNumeral notWord notQuote ?_⟩
    rintro kind s sign ⟨rest, same⟩
    cases kind <;> cases sign <;> cases same <;> simp_all

/-- What is read from a text that does not start with a blank is spelled there. -/
theorem exists_spells {c : Char} (cs : List Char) (notBlank : isBlank c = false) :
    ∃ s rest, c :: cs = s ++ rest ∧ Spells (first (c :: cs)) s rest := by
  by_cases numeral : startsNumeral c = true
  · rw [first, if_pos numeral]
    exact spells_numeral cs numeral
  have notNumeral := Bool.eq_false_iff.mpr numeral
  by_cases word : isWord c = true
  · rw [first, if_neg numeral, if_pos word]
    exact spells_word cs notNumeral word
  have notWord := Bool.eq_false_iff.mpr word
  by_cases quoted : Quoted.isQuote c = true
  · rw [first, if_neg numeral, if_neg word, if_pos quoted]
    exact spells_quoted cs quoted
  have notQuote := Bool.eq_false_iff.mpr quoted
  rw [first_symbol cs notNumeral notWord notQuote]
  exact spells_symbol cs notBlank notNumeral notWord notQuote

end Lexeme

end MetricLabels
