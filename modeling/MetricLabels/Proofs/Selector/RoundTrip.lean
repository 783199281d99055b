import MetricLabels.Proofs.LabelSet.Slots
import MetricLabels.Proofs.Selector.Printing

/-!
# Selectors read back

The text of a matcher spells out its conditions in order, so a matcher is read
back as it was.  A condition that cannot be written is never read, whatever the
text looks like, so no other matcher is read back as itself
(`Matcher.parse_format_eq_ok_iff`).

The text of a label set spells out its labels, the name of the metric before all
others, in front of anything that no word goes on into
(`LabelSet.exists_formatWord`).  So a set is read back up to the order of its
labels, and the order that it is read back in is the one it is printed in.  A text
gives only labels that can be written (`LabelSet.writable_of_labelSet_parse`), and
the set without labels is the empty text, which is no selector.  No other sets are
lost (`LabelSet.parse_format_iff`).
-/

namespace MetricLabels

/-! ## Matchers -/

/-- The dialect of matchers has all operators. -/
theorem Condition.writable_matchers_iff {c : Condition} :
    c.Writable .matchers ↔
      NamePattern.labelName.accepts c.name = true ∧ '\n' ∉ c.value.toList := by
  constructor
  · exact fun writable => ⟨writable.named, writable.plain⟩
  · rintro ⟨named, plain⟩
    exact ⟨by cases c.op <;> rfl, named, plain⟩

namespace Matcher

open Selector

/-- A matcher is read back with the same conditions in the same order exactly if
every name fits the pattern of label names and no value has a line feed. -/
theorem parse_format_eq_ok_iff (m : Matcher) :
    parse m.format = .ok m ↔
      ∀ c ∈ m.conditions,
        NamePattern.labelName.accepts c.name = true ∧ '\n' ∉ c.value.toList := by
  simp only [matcher_parse_eq_ok_iff, ← Condition.writable_matchers_iff]
  exact ⟨writable_of_parse, parse_braced⟩

end Matcher

/-! ## Label sets -/

/-- The condition that requires the value of the label. -/
def Label.condition (l : Label) : Condition := ⟨.equal, l.name, l.value⟩

/-- A label can be written if its name fits the pattern and its value has no line
feed. -/
theorem Label.writable_condition_iff {l : Label} :
    l.condition.Writable .labels ↔
      NamePattern.labelName.accepts l.name = true ∧ '\n' ∉ l.value.toList :=
  ⟨fun writable => ⟨writable.named, writable.plain⟩, fun ⟨named, plain⟩ => ⟨rfl, named, plain⟩⟩

namespace LabelSet

open Selector

variable {s t : LabelSet} {ls : List Label} {text name : String} {rest : List Char}

/-! ### What is printed -/

/-- The text of a set is all of its labels in braces, or the name of the metric with
the others in braces behind it. -/
theorem format_cases (s : LabelSet) :
    s.format = bracedLabels s.metricFirst ∨
      ∃ name, NamePattern.labelName.accepts name = true ∧
        s.metricFirst = ⟨Label.metricName, name⟩ :: s.others ∧
        s.format = name ++ bracedLabels s.others := by
  rw [format, metricFirst]
  cases s.metric? with
  | none => exact .inl rfl
  | some value =>
      -- A value that is no name is printed in quotes, as the first of the labels.
      by_cases bare : isBareName value = true
      · exact .inr ⟨value, isBareName_eq_accepts value ▸ bare, rfl, if_pos bare⟩
      · exact .inl (if_neg bare)

/-- The text of a set without labels is empty. -/
theorem format_eq_empty (empty : s.labels = []) : s.format = "" := by
  have unnamed : s.metric? = none := get?_eq_none_iff.mpr (by simp [empty])
  rw [format, unnamed]
  show bracedLabels s.others = ""
  rw [others, empty]
  rfl

/-! ### What is printed is read -/

theorem map_format (ls : List Label) :
    ls.map Label.format = (ls.map Label.condition).map Condition.format := by
  rw [List.map_map]
  rfl

/-- Labels in braces are spelled out as they are written. -/
theorem exists_bracedLabelsWord (labeled : ls ≠ [])
    (writable : ∀ c ∈ ls.map Label.condition, c.Writable .labels) (p : Position)
    (rest : List Char) :
    ∃ w q, BracesWord .labels (ls.map Label.condition) w ∧
      Tiles p ((bracedLabels ls).toList ++ rest) w q rest := by
  rw [bracedLabels, if_neg (by simpa using labeled), map_format]
  exact exists_bracesWord writable p rest

/-- So are labels in braces behind the name of a metric, and the name alone. -/
theorem exists_namedLabelsWord (named : NamePattern.labelName.accepts name = true)
    (writable : ∀ c ∈ ls.map Label.condition, c.Writable .labels)
    (stops : ∀ x ∈ rest.head?, isWord x = false) (p : Position) :
    ∃ w q, Word .labels (metric name :: ls.map Label.condition) w ∧
      Tiles p ((name ++ bracedLabels ls).toList ++ rest) w q rest ∧
      (w.length = 1 → NamePattern.labelName.accepts (name ++ bracedLabels ls) = true) := by
  cases ls with
  | nil =>
      have bare : name ++ bracedLabels [] = name := String.append_empty
      rw [bare]
      obtain ⟨w, q, word, tiles⟩ := exists_nameWord named stops p
      exact ⟨w, q, word, tiles, fun _ => named⟩
  | cons l ls =>
      obtain ⟨w, q, word, long, tiles⟩ := exists_bothWord named writable p rest
      rw [bracedLabels, if_neg (by simp), map_format]
      exact ⟨w, q, word, tiles, fun one => absurd one long⟩

/-- The text of a set spells out its labels, the name of the metric before all
others.  It is a single token only if it is a name. -/
theorem exists_formatWord (labeled : s.metricFirst ≠ [])
    (writable : ∀ c ∈ s.metricFirst.map Label.condition, c.Writable .labels)
    (stops : ∀ x ∈ rest.head?, isWord x = false) (p : Position) :
    ∃ w q, Word .labels (s.metricFirst.map Label.condition) w ∧
      Tiles p (s.format.toList ++ rest) w q rest ∧
      (w.length = 1 → NamePattern.labelName.accepts s.format = true) := by
  rcases s.format_cases with braced | ⟨name, named, first, format⟩
  · rw [braced]
    obtain ⟨w, q, word, tiles⟩ := exists_bracedLabelsWord labeled writable p rest
    exact ⟨w, q, .braces word, tiles, fun one => absurd one word.length_ne_one⟩
  · rw [format, first]
    rw [first] at writable
    exact exists_namedLabelsWord named (fun c member => writable c (.tail _ member)) stops p

/-- The text of a set is read as its labels, the name of the metric first. -/
theorem parse_format (labeled : s.metricFirst ≠ [])
    (writable : ∀ c ∈ s.metricFirst.map Label.condition, c.Writable .labels) :
    Selector.parse .labels s.format = .ok (s.metricFirst.map Label.condition) := by
  have stops : ∀ x ∈ ([] : List Char).head?, isWord x = false := fun _ absent => nomatch absent
  obtain ⟨w, q, word, tiles, _⟩ := exists_formatWord labeled writable stops .start
  rw [List.append_nil] at tiles
  exact parse_of_tiles word tiles

/-- Labels whose names differ are inserted in order. -/
theorem labels_ofConditions (nodup : (ls.map Label.name).Nodup) :
    (ofConditions (ls.map Label.condition)).labels = ls := by
  have names : (((ls.map Label.condition).map fun c => (c.name, c.value)).map Prod.fst) =
      ls.map Label.name := by
    rw [List.map_map, List.map_map]
    rfl
  rw [ofConditions, labels_ofList (names ▸ nodup), List.map_map, List.map_map]
  exact List.map_id _

theorem metricFirst_ne_nil (labeled : s.labels ≠ []) : s.metricFirst ≠ [] := fun empty =>
  labeled (List.perm_nil.mp (empty ▸ s.perm_metricFirst.symm))

theorem writable_metricFirst (writable : ∀ l ∈ s.labels, l.condition.Writable .labels) :
    ∀ c ∈ s.metricFirst.map Label.condition, c.Writable .labels :=
  List.forall_mem_map.mpr fun l member => writable l (s.perm_metricFirst.mem_iff.mp member)

theorem labels_ofConditions_metricFirst (s : LabelSet) :
    (ofConditions (s.metricFirst.map Label.condition)).labels = s.metricFirst :=
  labels_ofConditions ((s.perm_metricFirst.map _).nodup_iff.mpr s.nodup)

/-- A set that can be written is read back, the name of the metric first. -/
theorem exists_parse_format (labeled : s.labels ≠ [])
    (writable : ∀ l ∈ s.labels, l.condition.Writable .labels) :
    ∃ t, parse s.format = .ok t ∧ t.labels = s.metricFirst := by
  have read := parse_format (metricFirst_ne_nil labeled) (writable_metricFirst writable)
  exact ⟨_, labelSet_parse_eq_ok_iff.mpr ⟨_, read, rfl⟩, labels_ofConditions_metricFirst s⟩

/-- Where the name of the metric stands among the labels is not printed. -/
theorem format_eq_of_labels (same : t.labels = s.metricFirst) : t.format = s.format := by
  rw [format, format, metric?_eq_of_perm (same ▸ s.perm_metricFirst), others_of_metricFirst same]

/-! ### What is read can be printed -/

/-- A text gives no labels but those that can be written. -/
theorem writable_of_labelSet_parse (parsed : parse text = .ok t) :
    ∀ l ∈ t.labels, l.condition.Writable .labels := by
  obtain ⟨cs, selector, rfl⟩ := labelSet_parse_eq_ok_iff.mp parsed
  intro l member
  obtain ⟨c, member, same⟩ := List.mem_map.mp (mem_of_mem_ofList member)
  obtain ⟨name, value⟩ := Prod.mk.inj same
  have writable := writable_of_parse selector c member
  rw [Label.writable_condition_iff, ← name, ← value]
  exact ⟨writable.named, writable.plain⟩

/-- The empty text is refused. -/
theorem ne_nil_of_parse_format (parsed : parse s.format = .ok t) : s.labels ≠ [] := by
  intro empty
  rw [format_eq_empty empty] at parsed
  cases parsed

/-- A set that is read back has labels, and they are labels of a text. -/
theorem writable_of_readBack (parsed : parse s.format = .ok t) (same : (t == s) = true) :
    s.labels ≠ [] ∧ ∀ l ∈ s.labels, l.condition.Writable .labels := by
  have perm := beq_iff_perm.mp same
  exact ⟨ne_nil_of_parse_format parsed, fun l member =>
    writable_of_labelSet_parse parsed l (perm.mem_iff.mpr member)⟩

/-- A set is read back exactly if it has labels and all of them can be written.
It then comes back with the name of the metric before all other labels, which
keep their order, and its text is the same as before. -/
theorem parse_format_iff (s : LabelSet) :
    ((∃ t, parse s.format = .ok t ∧ (t == s) = true) ↔
      s.isEmpty = false ∧
        ∀ l ∈ s.labels, NamePattern.labelName.accepts l.name = true ∧ '\n' ∉ l.value.toList) ∧
    ∀ t, parse s.format = .ok t → (t == s) = true →
      t.labels = s.metricFirst ∧ t.format = s.format := by
  simp only [← Label.writable_condition_iff]
  refine ⟨⟨?_, ?_⟩, ?_⟩
  · rintro ⟨t, parsed, same⟩
    obtain ⟨labeled, writable⟩ := writable_of_readBack parsed same
    exact ⟨List.isEmpty_eq_false_iff.mpr labeled, writable⟩
  · rintro ⟨labeled, writable⟩
    obtain ⟨t, parsed, labels⟩ :=
      exists_parse_format (List.isEmpty_eq_false_iff.mp labeled) writable
    exact ⟨t, parsed, beq_iff_perm.mpr (labels ▸ s.perm_metricFirst)⟩
  · intro t parsed same
    obtain ⟨labeled, writable⟩ := writable_of_readBack parsed same
    obtain ⟨t', parsed', labels⟩ := exists_parse_format labeled writable
    cases parsed.symm.trans parsed'
    exact ⟨labels, format_eq_of_labels labels⟩

end LabelSet

end MetricLabels
