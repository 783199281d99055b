import MetricLabels.Label

/-!
# Label sets

A label set maps names to values and keeps the order in which the names came.
It is a list of labels whose names differ, and that is part of the type.  A
value is replaced in the slot of its name (`insert`), a new name goes to the
end, and a name that was erased and inserted again goes to the end too.

Equality ignores the order: two sets are equal if they have the same size and
every label of the one is in the other.

In the text of a set the name of the metric comes first, and the other labels
follow in braces.  A metric name that would not read back as a name is written
as the first label instead.  Braces without labels are left out, so the empty
set is the empty text.
-/

namespace MetricLabels

/-- A finite map from names to values, in the order of insertion. -/
structure LabelSet where
  /-- The labels, oldest slot first. -/
  labels : List Label
  /-- No name occurs twice. -/
  nodup : (labels.map Label.name).Nodup

/-! ## Slots -/

namespace Slots

/-- The value of the first label with the given name. -/
def lookup (name : String) : List Label → Option String
  | [] => none
  | l :: ls => if l.name = name then some l.value else lookup name ls

/-- Replaces the value of the first label with the given name, or appends a new
label.  The value that stood there before comes with the list. -/
def assign (name value : String) : List Label → Option String × List Label
  | [] => (none, [⟨name, value⟩])
  | l :: ls =>
    if l.name = name then (some l.value, ⟨name, value⟩ :: ls)
    else
      let (old, ls) := assign name value ls
      (old, l :: ls)

/-- Removes the first label with the given name.  Its value comes with the
list. -/
def remove (name : String) : List Label → Option String × List Label
  | [] => (none, [])
  | l :: ls =>
    if l.name = name then (some l.value, ls)
    else
      let (old, ls) := remove name ls
      (old, l :: ls)

/-- An assignment keeps the names, or adds the new one at the end. -/
theorem names_assign (name value : String) (ls : List Label) :
    (assign name value ls).2.map Label.name =
      if name ∈ ls.map Label.name then ls.map Label.name
      else ls.map Label.name ++ [name] := by
  induction ls with
  | nil => rfl
  | cons l ls ih =>
      by_cases same : l.name = name
      · simp [assign, same]
      · have other : ¬name = l.name := fun h => same h.symm
        simp only [assign, same, if_false, List.map_cons, ih, List.mem_cons, other, false_or]
        split <;> rfl

/-- An assignment keeps the names apart, since a name that is there has its slot
written over. -/
theorem nodup_assign (name value : String) {ls : List Label}
    (h : (ls.map Label.name).Nodup) : ((assign name value ls).2.map Label.name).Nodup := by
  rw [names_assign]
  split
  next => exact h
  next fresh => simpa [List.nodup_append, h] using fun l hl same => fresh (by simp_all)

theorem remove_sublist (name : String) (ls : List Label) : (remove name ls).2.Sublist ls := by
  induction ls with
  | nil => exact .slnil
  | cons l ls ih =>
      by_cases same : l.name = name
      · simp [remove, same]
      · simpa [remove, same] using ih

end Slots

/-! ## Sets -/

namespace LabelSet

/-- The set without labels. -/
def empty : LabelSet := ⟨[], .nil⟩

instance : EmptyCollection LabelSet := ⟨empty⟩

/-- The value of a name. -/
def get? (s : LabelSet) (name : String) : Option String := Slots.lookup name s.labels

/-- Sets the value of a name.  The value before comes with the set. -/
def getThenInsert? (s : LabelSet) (name value : String) : Option String × LabelSet :=
  let r := Slots.assign name value s.labels
  (r.1, ⟨r.2, Slots.nodup_assign name value s.nodup⟩)

/-- Sets the value of a name. -/
def insert (s : LabelSet) (name value : String) : LabelSet := (s.getThenInsert? name value).2

/-- Removes a name.  Its value comes with the set. -/
def getThenErase? (s : LabelSet) (name : String) : Option String × LabelSet :=
  let r := Slots.remove name s.labels
  (r.1, ⟨r.2, ((Slots.remove_sublist name s.labels).map _).nodup s.nodup⟩)

/-- Removes a name. -/
def erase (s : LabelSet) (name : String) : LabelSet := (s.getThenErase? name).2

/-- Whether the set has a value for the name. -/
def contains (s : LabelSet) (name : String) : Bool := (s.get? name).isSome

/-- The number of labels. -/
def size (s : LabelSet) : Nat := s.labels.length

/-- Whether there are no labels. -/
def isEmpty (s : LabelSet) : Bool := s.labels.isEmpty

/-- The set of the given names and values, inserted from left to right. -/
def ofList (pairs : List (String × String)) : LabelSet :=
  pairs.foldl (fun s (name, value) => s.insert name value) ∅

/-- The names and values, oldest slot first. -/
def toList (s : LabelSet) : List (String × String) := s.labels.map fun l => (l.name, l.value)

/-- The name of the metric. -/
def metric? (s : LabelSet) : Option String := s.get? Label.metricName

/-- The labels other than the name of the metric. -/
def others (s : LabelSet) : List Label := s.labels.filter (·.name != Label.metricName)

/-- Checks the labels from the oldest slot on, up to the first that is not fit
to be stored. -/
def validate [PatternEngine] (s : LabelSet) : Except LabelError Unit := s.labels.forM Label.validate

instance : BEq LabelSet where
  beq a b := a.size == b.size && a.labels.all fun l => b.get? l.name == some l.value

/-! ## Text -/

/-- The part of the text in braces, which is left out if it would be empty. -/
def bracedLabels (labels : List Label) : String :=
  if labels.isEmpty then "" else braced (labels.map Label.format)

/-- The canonical text. -/
def format (s : LabelSet) : String :=
  match s.metric? with
  | none => bracedLabels s.others
  | some metric =>
    if isBareName metric then metric ++ bracedLabels s.others
    else bracedLabels (⟨Label.metricName, metric⟩ :: s.others)

example : (ofList [("host", "a"), ("__name__", "cpu")]).format = "cpu\x7bhost=\"a\"\x7d" := by
  decide
example : (ofList [("host", "a"), ("__name__", "")]).format =
    "\x7b__name__=\"\",host=\"a\"\x7d" := by
  decide

end LabelSet

end MetricLabels
