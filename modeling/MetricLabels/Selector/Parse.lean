import MetricLabels.LabelSet.Basic
import MetricLabels.Matcher.Basic
import MetricLabels.Token.Reader

/-!
# Selectors

A selector names a metric, or puts conditions on labels, or both:

    selector   = name [ braces ] | braces
    braces     = "{" [ condition { "," condition } [ "," ] ] "}"
    condition  = name operator string

The name of the metric stands for a condition too.  There are two dialects of
the one grammar.  A label set gives its labels as conditions, so its only
operator is `=`, and a matcher takes all four.

A reader consumes the tokens of its part and no others.  The tokens it consumed
before an error stay consumed.

Label sets and matchers can be read off a tokenizer, which leaves what follows
the selector to others (`read`), or off a text that has to be a selector from
end to end (`parse`).
-/

namespace MetricLabels

namespace Selector

open TokenReader

/-! ## The grammar -/

/-- The dialects of the grammar. -/
inductive Dialect where
  /-- Selectors that give the labels of a set. -/
  | labels
  /-- Selectors with all operators. -/
  | matchers
deriving Repr, DecidableEq

/-- Reads the operator of a condition. -/
def operator : Dialect → TokenReader Operator
  | .labels => do
      let _ ← expect .eq
      return .equal
  | .matchers => do
      let token ← next
      match Operator.ofKind? token.kind with
      | some op => return op
      | none => throw (.unexpected .operator token.kind token.pos)

/-- Reads a condition. -/
def condition (d : Dialect) : TokenReader Condition := do
  let name ← expect .ident
  let op ← operator d
  let value ← expect .string
  return ⟨op, name.text, value.text⟩

/-! ## A condition takes tokens -/

theorem consumes_operator (d : Dialect) : Consumes (operator d) := by
  cases d with
  | labels => exact (consumes_expect _).bind fun _ => .pure _
  | matchers =>
      refine consumes_next.bind fun token => ?_
      split
      next => exact .pure _
      next => exact fun _ => Nat.le_refl _

/-- A condition takes its name at least. -/
theorem remaining_lt_of_condition {d : Dialect} {t t' : Tokenizer} {c : Condition}
    (h : condition d t = (.ok c, t')) : t'.remaining < t.remaining := by
  rw [condition, bind_apply] at h
  split at h
  next name t₁ named =>
    have shorter := remaining_lt_of_expect named (by decide)
    have rest := (consumes_operator d).bind (fun op => (consumes_expect .string).bind
      fun value => .pure (Condition.mk op name.text value.text)) t₁
    rw [h] at rest
    exact Nat.lt_of_le_of_lt rest shorter
  next => cases h

/-! ## Selectors -/

/-- Whether another condition follows: a comma does, and no closing brace stands
behind it.  The comma is consumed. -/
def another (t : Tokenizer) : Bool × Tokenizer :=
  let (separator, t) := t.peek
  if separator.kind = .comma then
    let (closing, t) := t.next.2.peek
    (closing.kind != .rbrace, t)
  else (false, t)

theorem remaining_le_of_another {t t' : Tokenizer} {more : Bool}
    (h : another t = (more, t')) : t'.remaining ≤ t.remaining := by
  have atSeparator := t.remaining_peek_le
  have behindSeparator := t.peek.2.remaining_next_le
  have atClosing := t.peek.2.next.2.remaining_peek_le
  simp only [another] at h
  split at h
  next =>
    cases h
    exact Nat.le_trans atClosing (Nat.le_trans behindSeparator atSeparator)
  next =>
    cases h
    exact atSeparator

/-- Reads one condition or more, with commas between them and perhaps a comma
behind the last. -/
def conditions (d : Dialect) (t : Tokenizer) : Except ParseError (List Condition) × Tokenizer :=
  match h : condition d t with
  | (.error e, t₁) => (.error e, t₁)
  | (.ok c, t₁) =>
    match h' : another t₁ with
    | (false, t₂) => (.ok [c], t₂)
    | (true, t₂) =>
      have := Nat.lt_of_le_of_lt (remaining_le_of_another h') (remaining_lt_of_condition h)
      let (more, t₃) := conditions d t₂
      (more.map (c :: ·), t₃)
termination_by t.remaining

/-- Reads conditions in braces. -/
def braces (d : Dialect) : TokenReader (List Condition) := do
  let _ ← expect .lbrace
  let cs ← if (← peek).kind = .rbrace then pure [] else ExceptT.mk (conditions d)
  let _ ← expect .rbrace
  return cs

/-- Reads a selector.  A name with no brace behind it is one. -/
def read (d : Dialect) : TokenReader (List Condition) := do
  if (← peek).kind = .ident then
    let name ← next
    let metric : Condition := ⟨.equal, Label.metricName, name.text⟩
    if (← peek).kind = .lbrace then
      return metric :: (← braces d)
    else
      return [metric]
  else
    braces d

/-- Reads a selector that nothing follows. -/
def readAll (d : Dialect) : TokenReader (List Condition) := do
  let cs ← read d
  let _ ← expect .eof
  return cs

/-- The conditions of a text that is a selector from end to end. -/
def parse (d : Dialect) (text : String) : Except ParseError (List Condition) :=
  (readAll d (.ofString text)).1

end Selector

/-! ## Label sets and matchers -/

namespace LabelSet

/-- The label set that equality conditions spell out.  Of two values for a name
the later one stays, in the slot of the earlier. -/
def ofConditions (cs : List Condition) : LabelSet := ofList (cs.map fun c => (c.name, c.value))

/-- Reads a selector as a label set. -/
def read : TokenReader LabelSet := do
  return ofConditions (← Selector.read .labels)

/-- The label set of a text. -/
def parse (text : String) : Except ParseError LabelSet :=
  (Selector.parse .labels text).map ofConditions

end LabelSet

namespace Matcher

/-- Reads a selector as a matcher. -/
def read : TokenReader Matcher := do
  return ⟨← Selector.read .matchers⟩

/-- The matcher of a text. -/
def parse (text : String) : Except ParseError Matcher :=
  (Selector.parse .matchers text).map Matcher.mk

end Matcher

end MetricLabels
