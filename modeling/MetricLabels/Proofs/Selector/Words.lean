import MetricLabels.Selector.Parse

/-!
# The words of the grammar

The grammar of selectors without a reader: which sequences of tokens are
selectors, and which conditions each of them spells out.

    word       = name | [ name ] braces
    braces     = "{" [ list [ "," ] ] "}"
    list       = condition { "," condition }
    condition  = name operator string

A list starts with the name of a label and braces with an opening brace
(`ListWord.exists_cons`, `BracesWord.exists_cons`), so one token tells which of
the alternatives comes next.
-/

namespace MetricLabels.Selector

/-- The operator that a token of the given kind stands for in a dialect. -/
def Dialect.operator? : Dialect → Token.Kind → Option Operator
  | .labels, .eq => some .equal
  | .labels, _ => none
  | .matchers, kind => Operator.ofKind? kind

/-- The condition that the name of a metric stands for. -/
def metric (name : String) : Condition := ⟨.equal, Label.metricName, name⟩

/-- The tokens of one condition. -/
inductive ConditionWord (d : Dialect) : Condition → List Token → Prop where
  | intro {name sign value : Token} {op : Operator} :
      name.kind = .ident → d.operator? sign.kind = some op → value.kind = .string →
      ConditionWord d ⟨op, name.text, value.text⟩ [name, sign, value]

/-- The tokens of one condition or more, with commas between them. -/
inductive ListWord (d : Dialect) : List Condition → List Token → Prop where
  | last {c : Condition} {w : List Token} : ConditionWord d c w → ListWord d [c] w
  | more {c : Condition} {cs : List Condition} {comma : Token} {v w : List Token} :
      ConditionWord d c v → comma.kind = .comma → ListWord d cs w →
      ListWord d (c :: cs) (v ++ comma :: w)

/-- The tokens of conditions in braces. -/
inductive BracesWord (d : Dialect) : List Condition → List Token → Prop where
  | empty {left right : Token} :
      left.kind = .lbrace → right.kind = .rbrace → BracesWord d [] [left, right]
  | list {cs : List Condition} {left right : Token} {w : List Token} :
      left.kind = .lbrace → ListWord d cs w → right.kind = .rbrace →
      BracesWord d cs (left :: (w ++ [right]))
  | trailing {cs : List Condition} {left comma right : Token} {w : List Token} :
      left.kind = .lbrace → ListWord d cs w → comma.kind = .comma → right.kind = .rbrace →
      BracesWord d cs (left :: (w ++ [comma, right]))

/-- The tokens of a selector, and the conditions that they spell out. -/
inductive Word (d : Dialect) : List Condition → List Token → Prop where
  | name {name : Token} : name.kind = .ident → Word d [metric name.text] [name]
  | braces {cs : List Condition} {w : List Token} : BracesWord d cs w → Word d cs w
  | both {cs : List Condition} {name : Token} {w : List Token} :
      name.kind = .ident → BracesWord d cs w → Word d (metric name.text :: cs) (name :: w)

variable {d : Dialect} {c : Condition} {cs : List Condition} {w : List Token}

/-! ## The shape of a word -/

/-- A list starts with the name of a label. -/
theorem ListWord.exists_cons (word : ListWord d cs w) :
    ∃ name rest, w = name :: rest ∧ name.kind = .ident := by
  cases word with
  | last condition =>
      cases condition with
      | intro named _ _ => exact ⟨_, _, rfl, named⟩
  | more condition _ _ =>
      cases condition with
      | intro named _ _ => exact ⟨_, _, rfl, named⟩

/-- Braces start with the opening one, and do not end there. -/
theorem BracesWord.exists_cons (word : BracesWord d cs w) :
    ∃ left rest, w = left :: rest ∧ left.kind = .lbrace ∧ rest ≠ [] := by
  cases word with
  | empty opens _ => exact ⟨_, _, rfl, opens, List.cons_ne_nil _ _⟩
  | list opens _ _ => exact ⟨_, _, rfl, opens, by simp⟩
  | trailing opens _ _ _ => exact ⟨_, _, rfl, opens, by simp⟩

/-- Only a name without braces is a word of one token. -/
theorem BracesWord.length_ne_one (word : BracesWord d cs w) : w.length ≠ 1 := by
  obtain ⟨left, rest, rfl, _, more⟩ := word.exists_cons
  simpa using more

theorem Word.exists_cons (word : Word d cs w) : ∃ token rest, w = token :: rest := by
  cases word with
  | name _ => exact ⟨_, _, rfl⟩
  | braces word =>
      obtain ⟨left, rest, same, _, _⟩ := word.exists_cons
      exact ⟨left, rest, same⟩
  | both _ _ => exact ⟨_, _, rfl⟩

end MetricLabels.Selector
