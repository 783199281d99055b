import MetricLabels.Proofs.LabelSet.Slots

/-!
# Changes to a label set

An insertion or a removal concerns one name.  It gives the value that the name
had (`Edit.apply_fst`), and no other name notices: the others keep their values
(`get?_apply_of_ne`) and their order (`filter_apply`).  An insertion leaves the
slots as they are or adds one at the end (`names_insert`), and a removal leaves
the labels with other names (`labels_erase`).
-/

namespace MetricLabels

/-! ## Slots -/

namespace Slots

variable {name value : String} {ls : List Label}

/-- The value that a name had is given back. -/
theorem assign_fst (name value : String) (ls : List Label) :
    (assign name value ls).1 = lookup name ls := by
  induction ls with
  | nil => rfl
  | cons l ls ih =>
      rw [assign, lookup]
      split
      next => rfl
      next => exact ih

theorem remove_fst (name : String) (ls : List Label) : (remove name ls).1 = lookup name ls := by
  induction ls with
  | nil => rfl
  | cons l ls ih =>
      rw [remove, lookup]
      split
      next => rfl
      next => exact ih

/-- A name that is assigned has its new value, and any other name the one it had. -/
theorem lookup_assign (other name value : String) (ls : List Label) :
    lookup other (assign name value ls).2 =
      if name = other then some value else lookup other ls := by
  induction ls with
  | nil => rfl
  | cons l ls ih =>
      rw [assign]
      by_cases same : l.name = name
      · rw [if_pos same, lookup, lookup, same]
        split
        next => rfl
        next => rfl
      · rw [if_neg same, lookup, lookup, ih]
        by_cases found : l.name = other
        · rw [if_pos found, if_pos found, if_neg fun twice => same (found.trans twice.symm)]
        · rw [if_neg found, if_neg found]

/-- All other slots stay what they are and where they are. -/
theorem filter_assign (name value : String) (ls : List Label) :
    (assign name value ls).2.filter (·.name != name) = ls.filter (·.name != name) := by
  induction ls with
  | nil => simp [assign]
  | cons l ls ih =>
      rw [assign]
      by_cases same : l.name = name
      · simp [same]
      · rw [if_neg same]
        show List.filter _ (l :: (assign name value ls).2) = _
        rw [List.filter_cons, List.filter_cons, ih]

/-- Where no name occurs twice, a removal leaves exactly the labels with other
names. -/
theorem remove_eq_filter (nodup : (ls.map Label.name).Nodup) :
    (remove name ls).2 = ls.filter (·.name != name) := by
  induction ls with
  | nil => rfl
  | cons l ls ih =>
      rw [List.map_cons, List.nodup_cons] at nodup
      rw [remove]
      by_cases same : l.name = name
      · have others : ∀ x ∈ ls, (x.name != name) = true := fun x member =>
          bne_iff_ne.mpr fun same' =>
            nodup.1 (same.trans same'.symm ▸ List.mem_map_of_mem member)
        rw [if_pos same, List.filter_cons_of_neg (by simpa using same),
          List.filter_eq_self.mpr others]
      · rw [if_neg same, List.filter_cons_of_pos (by simpa using same)]
        exact congrArg (l :: ·) (ih nodup.2)

end Slots

/-! ## Sets -/

namespace LabelSet

variable {s : LabelSet} {other name value : String}

theorem mem_names_iff : name ∈ s.labels.map Label.name ↔ ∃ value, s.get? name = some value := by
  rw [← Option.ne_none_iff_exists', ne_eq, get?_eq_none_iff, not_not]

/-- A new name goes behind all others, and one that is there stays in its slot. -/
theorem names_insert (s : LabelSet) (name value : String) :
    (s.insert name value).labels.map Label.name =
      if name ∈ s.labels.map Label.name then s.labels.map Label.name
      else s.labels.map Label.name ++ [name] := Slots.names_assign name value s.labels

/-- The slot of the name goes, and the others close up. -/
theorem labels_erase (s : LabelSet) (name : String) :
    (s.erase name).labels = s.labels.filter (·.name != name) := Slots.remove_eq_filter s.nodup

/-- An insertion decides the value of its name and of no other. -/
theorem get?_insert (s : LabelSet) (other name value : String) :
    (s.insert name value).get? other = if name = other then some value else s.get? other :=
  Slots.lookup_assign other name value s.labels

/-- A name that is removed has no value, and the others keep theirs. -/
theorem get?_erase (s : LabelSet) (other name : String) :
    (s.erase name).get? other = if name = other then none else s.get? other := by
  refine Option.ext fun value => ?_
  rw [get?_eq_some_iff, labels_erase, List.mem_filter, ← get?_eq_some_iff]
  by_cases same : name = other
  · simp [same]
  · simp [same, Ne.symm same]

theorem eq_of_labels : ∀ {s t : LabelSet}, s.labels = t.labels → s = t
  | ⟨_, _⟩, ⟨_, _⟩, rfl => rfl

/-- The labels of a set, inserted from left to right, give the set. -/
theorem ofList_toList (s : LabelSet) : ofList s.toList = s := by
  have names : s.toList.map Prod.fst = s.labels.map Label.name := by
    rw [toList, List.map_map]
    rfl
  refine eq_of_labels ?_
  rw [labels_ofList (names ▸ s.nodup), toList, List.map_map]
  exact List.map_id _

end LabelSet

/-! ## Edits -/

/-- A change to a label set. -/
inductive Edit where
  /-- A name gets a value. -/
  | insert (name value : String)
  /-- A name is removed. -/
  | remove (name : String)
deriving Repr, DecidableEq

namespace Edit

/-- The name that changes. -/
def name : Edit → String
  | insert name _ => name
  | remove name => name

/-- Changes a set.  The value that the name had before comes with the set. -/
def apply : Edit → LabelSet → Option String × LabelSet
  | insert name value, s => s.getThenInsert? name value
  | remove name, s => s.getThenErase? name

variable {e : Edit} {other value : String}

/-- An edit gives back the value that its name has before it. -/
theorem apply_fst (e : Edit) (s : LabelSet) : (e.apply s).1 = s.get? e.name := by
  cases e with
  | insert name value => exact Slots.assign_fst name value s.labels
  | remove name => exact Slots.remove_fst name s.labels

/-- An edit decides the value of its name, and of no other. -/
theorem get?_apply_eq_some_iff {s : LabelSet} :
    (e.apply s).2.get? other = some value ↔
      e = .insert other value ∨ e.name ≠ other ∧ s.get? other = some value := by
  cases e with
  | insert name new =>
      show (s.insert name new).get? other = some value ↔ _
      rw [LabelSet.get?_insert]
      by_cases same : name = other
      · simp [same, Edit.name]
      · simp [same, Edit.name]
  | remove name =>
      show (s.erase name).get? other = some value ↔ _
      rw [LabelSet.get?_erase]
      by_cases same : name = other
      · simp [same, Edit.name]
      · simp [same, Edit.name]

/-- The value of another name does not change. -/
theorem get?_apply_of_ne (s : LabelSet) (differs : other ≠ e.name) :
    (e.apply s).2.get? other = s.get? other := by
  refine Option.ext fun value => get?_apply_eq_some_iff.trans ⟨?_, ?_⟩
  · rintro (rfl | ⟨_, found⟩)
    · exact absurd rfl differs
    · exact found
  · exact fun found => .inr ⟨differs.symm, found⟩

/-- The other labels do not change, nor does their order. -/
theorem filter_apply (e : Edit) (s : LabelSet) :
    (e.apply s).2.labels.filter (·.name != e.name) = s.labels.filter (·.name != e.name) := by
  cases e with
  | insert name value => exact Slots.filter_assign name value s.labels
  | remove name =>
      show (s.erase name).labels.filter (·.name != name) = _
      rw [LabelSet.labels_erase, List.filter_filter]
      simp only [Bool.and_self, Edit.name]

end Edit

end MetricLabels
