import MetricLabels.Codec
import MetricLabels.Proofs.Json.Laws
import MetricLabels.Proofs.LabelSet.Edits

/-!
# Values read back from their JSON form

Every `ofJson?` gives back the value of the `toJson` beside it: positions if a word
can hold their numbers, and label sets because the names in a set differ.  That is so
for every JSON library that keeps the laws.

No form is nested deeper than two containers, so every library reads it from its text
(`decode?_write`).
-/

namespace MetricLabels

open Json (Library LawfulLibrary Nested)
open Json.LawfulLibrary

/-! ## How deep the forms are nested -/

theorem Position.nested {depth : Nat} (p : Position) : Nested (depth + 1) p.toJson :=
  .record (List.forall_mem_cons.mpr ⟨.nat p.line, List.forall_mem_singleton.mpr (.nat p.column)⟩)

/-- A token has its position inside it, and nothing deeper. -/
theorem Token.nested {depth : Nat} (t : Token) : Nested (depth + 2) t.toJson :=
  .record (List.forall_mem_cons.mpr ⟨.str _, List.forall_mem_cons.mpr ⟨t.pos.nested,
    List.forall_mem_singleton.mpr (.str _)⟩⟩)

/-- The values of a set are texts. -/
theorem LabelSet.nested {depth : Nat} (s : LabelSet) : Nested (depth + 1) s.toJson :=
  .record (List.forall_mem_map.mpr fun _ _ => .str _)

theorem Condition.nested {depth : Nat} (c : Condition) : Nested (depth + 1) c.toJson :=
  .record (List.forall_mem_cons.mpr ⟨.str _, List.forall_mem_cons.mpr ⟨.str _,
    List.forall_mem_singleton.mpr (.str _)⟩⟩)

/-- A matcher is as deep as one condition in an array. -/
theorem Matcher.nested {depth : Nat} (m : Matcher) : Nested (depth + 2) m.toJson :=
  .array (List.forall_mem_map.mpr fun c _ => c.nested)

theorem Template.Node.nested {depth : Nat} (n : Template.Node) : Nested (depth + 1) n.toJson := by
  cases n with
  | text content =>
      exact .record (List.forall_mem_cons.mpr ⟨.str _, List.forall_mem_singleton.mpr (.str _)⟩)
  | placeholder name =>
      exact .record (List.forall_mem_cons.mpr ⟨.str _, List.forall_mem_singleton.mpr (.str _)⟩)

theorem Template.nested {depth : Nat} (t : Template) : Nested (depth + 2) t.toJson :=
  .array (List.forall_mem_map.mpr fun n _ => n.nested)

/-! ## Positions and tokens -/

variable [Library] [LawfulLibrary]

namespace Position

/-- A word can hold the line, and a word can hold the column. -/
structure Fits (p : Position) : Prop where
  line : p.line < UInt64.size
  column : p.column < UInt64.size

/-- A position is read back if words can hold its line and its column. -/
theorem ofJson?_toJson {p : Position} (fits : p.Fits) : ofJson? p.toJson = some p := by
  have fields : Library.fields? ["line", "char"] p.toJson = _ :=
    fields?_record rfl (by decide)
  rw [ofJson?, fields]
  show (do return Position.mk (← Library.nat? (.nat p.line)) (← Library.nat? (.nat p.column))) = _
  rw [nat?_nat fits.line, nat?_nat fits.column]
  rfl

end Position

namespace Token

/-- A token is read back if words can hold its place. -/
theorem ofJson?_toJson {t : Token} (fits : t.pos.Fits) : ofJson? t.toJson = some t := by
  have fields : Library.fields? ["type", "pos", "text"] t.toJson = _ :=
    fields?_record rfl (by decide)
  rw [ofJson?, fields]
  show (do
    return Token.mk (← Kind.ofName? (← Library.name? (.str t.kind.name)))
      (← Position.ofJson? t.pos.toJson) (← Library.text? (.str t.text))) = _
  rw [name?_str, text?_str, Position.ofJson?_toJson fits]
  show (do return Token.mk (← Kind.ofName? t.kind.name) t.pos t.text) = _
  rw [Kind.ofName?_name]
  rfl

end Token

/-! ## Label sets and matchers -/

/-- A set is read back with its labels in their slots, since no name is told twice. -/
theorem LabelSet.ofJson?_toJson (s : LabelSet) : ofJson? s.toJson = some s := by
  have entries : Library.entries? s.toJson = some s.toList := by
    rw [← entries?_record s.toList, toList, List.map_map]
    rfl
  -- The labels are inserted one by one into an empty set, where each name is new.
  rw [ofJson?, entries, Option.map_some, ofList_toList]

namespace Condition

theorem ofJson?_toJson (c : Condition) : ofJson? c.toJson = some c := by
  have fields : Library.fields? ["op", "name", "value"] c.toJson = _ :=
    fields?_record rfl (by decide)
  rw [ofJson?, fields]
  show (do
    return Condition.mk (← Operator.ofJson? (.str c.op.symbol)) (← Library.text? (.str c.name))
      (← Library.text? (.str c.value))) = _
  rw [Operator.ofJson?, name?_str, text?_str, text?_str]
  show (do return Condition.mk (← Operator.ofSymbol? c.op.symbol) c.name c.value) = _
  rw [Operator.ofSymbol?_symbol]
  rfl

end Condition

namespace Matcher

/-- The conditions are read back in order. -/
theorem ofJson?_toJson (m : Matcher) : ofJson? m.toJson = some m := by
  rw [ofJson?, toJson, items?_array]
  show (do return Matcher.mk (← (m.conditions.map Condition.toJson).mapM Condition.ofJson?)) = _
  rw [Json.mapM_of_inverse fun c _ => c.ofJson?_toJson]
  rfl

end Matcher

/-! ## Templates -/

namespace Template

theorem Node.ofJson?_toJson (n : Node) : Node.ofJson? n.toJson = some n := by
  cases n with
  | text content =>
      rw [Node.ofJson?, toJson, tagged?_record _ _ (by decide)]
      show (do return text (← Library.text? (.str content))) = _
      rw [text?_str]
      rfl
  | placeholder name =>
      rw [Node.ofJson?, toJson, tagged?_record _ _ (by decide)]
      show (do return placeholder (← Library.text? (.str name))) = _
      rw [text?_str]
      rfl

/-- The nodes are read back in order, also those that no text spells out. -/
theorem ofJson?_toJson (t : Template) : ofJson? t.toJson = some t := by
  rw [ofJson?, toJson, items?_array]
  show (do return Template.mk (← (t.nodes.map Node.toJson).mapM Node.ofJson?)) = _
  rw [Json.mapM_of_inverse fun n _ => n.ofJson?_toJson]
  rfl

end Template

end MetricLabels
