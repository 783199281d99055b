import Mathlib.Data.List.Nodup
import Mathlib.Data.List.Perm.Subperm
import MetricLabels.LabelSet.Basic

/-!
# Label sets as lists and as maps

The value of a name is that of the one label with the name (`get?_eq_some_iff`),
so two sets are equal exactly if their labels are the same up to the order
(`beq_iff_perm`).  Insertion from left to right keeps the labels of a list of
different names as they are (`labels_ofList`), and of any list it keeps no label
that is not in it (`mem_of_mem_ofList`).

The name of the metric is set apart: a set has the same labels as its metric
name with the other labels behind it (`perm_metricFirst`).
-/

namespace MetricLabels

/-! ## Slots -/

namespace Slots

variable {name value : String} {l : Label} {ls : List Label}

theorem mem_of_lookup (found : lookup name ls = some value) : ⟨name, value⟩ ∈ ls := by
  induction ls with
  | nil => cases found
  | cons l ls ih =>
      rw [lookup] at found
      split at found
      next same =>
        cases found
        rw [← same]
        exact .head _
      next => exact .tail _ (ih found)

/-- Where no name occurs twice, the slots tell the value of every name. -/
theorem lookup_eq_some_iff (nodup : (ls.map Label.name).Nodup) :
    lookup name ls = some value ↔ ⟨name, value⟩ ∈ ls := by
  refine ⟨mem_of_lookup, fun member => ?_⟩
  induction ls with
  | nil => cases member
  | cons l ls ih =>
      rw [List.map_cons, List.nodup_cons] at nodup
      rcases List.mem_cons.mp member with rfl | member
      · exact if_pos rfl
      · have named : name ∈ ls.map Label.name := List.mem_map_of_mem (f := Label.name) member
        have other : l.name ≠ name := fun same => nodup.1 (same ▸ named)
        rw [lookup, if_neg other]
        exact ih nodup.2 member

/-- A new name goes to the end. -/
theorem assign_of_notMem (fresh : name ∉ ls.map Label.name) :
    (assign name value ls).2 = ls ++ [⟨name, value⟩] := by
  induction ls with
  | nil => rfl
  | cons l ls ih =>
      rw [List.map_cons, List.mem_cons, not_or] at fresh
      rw [assign, if_neg fun same => fresh.1 same.symm]
      exact congrArg (l :: ·) (ih fresh.2)

/-- An assignment brings no label in but its own. -/
theorem mem_of_mem_assign (member : l ∈ (assign name value ls).2) :
    l = ⟨name, value⟩ ∨ l ∈ ls := by
  induction ls with
  | nil => exact .inl (List.mem_singleton.mp member)
  | cons first ls ih =>
      rw [assign] at member
      split at member
      next =>
        rcases List.mem_cons.mp member with rfl | member
        · exact .inl rfl
        · exact .inr (.tail _ member)
      next =>
        rcases List.mem_cons.mp member with rfl | member
        · exact .inr (.head _)
        · exact (ih member).imp_right (.tail _)

/-- A name has one slot at most. -/
theorem filter_eq_lookup (nodup : (ls.map Label.name).Nodup) :
    ls.filter (·.name == name) = (lookup name ls).toList.map (Label.mk name) := by
  induction ls with
  | nil => rfl
  | cons l ls ih =>
      rw [List.map_cons, List.nodup_cons] at nodup
      by_cases same : l.name = name
      · have nothing : ls.filter (·.name == name) = [] := by
          rw [List.filter_eq_nil_iff]
          intro l' member
          have other : l'.name ≠ name := fun same' =>
            nodup.1 (same.trans same'.symm ▸ List.mem_map_of_mem member)
          simpa using other
        rw [List.filter_cons_of_pos (by simpa using same), nothing, lookup, if_pos same, ← same]
        rfl
      · rw [List.filter_cons_of_neg (by simpa using same), ih nodup.2, lookup, if_neg same]

end Slots

namespace LabelSet

variable {s t : LabelSet} {name value : String} {pairs : List (String × String)} {l : Label}

/-! ## Labels and values -/

/-- A name has the value of its label. -/
theorem get?_eq_some_iff : s.get? name = some value ↔ ⟨name, value⟩ ∈ s.labels :=
  Slots.lookup_eq_some_iff s.nodup

theorem get?_eq_none_iff : s.get? name = none ↔ name ∉ s.labels.map Label.name := by
  rw [Option.eq_none_iff_forall_ne_some, List.mem_map]
  constructor
  · rintro absent ⟨l, member, rfl⟩
    exact absent l.value (get?_eq_some_iff.mpr member)
  · intro absent value found
    exact absent ⟨_, get?_eq_some_iff.mp found, rfl⟩

theorem nodup_labels (s : LabelSet) : s.labels.Nodup := List.Nodup.of_map _ s.nodup

/-- One set answers for the labels of the other if it has all of them. -/
theorem subset_iff : (s.labels.all fun l => t.get? l.name == some l.value) = true ↔
    s.labels ⊆ t.labels := by
  rw [List.all_eq_true]
  constructor
  · intro all l member
    exact get?_eq_some_iff.mp (beq_iff_eq.mp (all l member))
  · intro subset l member
    exact beq_iff_eq.mpr (get?_eq_some_iff.mpr (subset member))

/-- Sets are equal exactly if they have the same labels in some order. -/
theorem beq_iff_perm : (s == t) = true ↔ s.labels.Perm t.labels := by
  show (s.size == t.size && s.labels.all fun l => t.get? l.name == some l.value) = true ↔ _
  rw [Bool.and_eq_true, subset_iff, beq_iff_eq]
  constructor
  · rintro ⟨size, subset⟩
    exact (List.subperm_of_subset s.nodup_labels subset).perm_of_length_le (Nat.le_of_eq size.symm)
  · intro perm
    exact ⟨perm.length_eq, perm.subset⟩

/-! ## Insertion from left to right -/

/-- Names that are all new take slots in the order in which they come. -/
theorem labels_foldl_insert : ∀ (pairs : List (String × String)) (s : LabelSet),
    (s.labels.map Label.name ++ pairs.map Prod.fst).Nodup →
      (pairs.foldl (fun s (name, value) => s.insert name value) s).labels =
        s.labels ++ pairs.map fun (name, value) => ⟨name, value⟩
  | [], s, _ => (List.append_nil _).symm
  | (name, value) :: pairs, s, nodup => by
      have fresh : name ∉ s.labels.map Label.name := fun member =>
        (List.nodup_append.mp nodup).2.2 name member name (.head _) rfl
      have inserted : (s.insert name value).labels = s.labels ++ [⟨name, value⟩] :=
        Slots.assign_of_notMem fresh
      rw [List.foldl_cons, labels_foldl_insert pairs, inserted, List.map_cons, List.append_assoc]
      · rfl
      · rw [inserted, List.map_append]
        simpa using nodup

/-- Labels with different names are kept as they come. -/
theorem labels_ofList (nodup : (pairs.map Prod.fst).Nodup) :
    (ofList pairs).labels = pairs.map fun (name, value) => ⟨name, value⟩ :=
  labels_foldl_insert pairs ∅ nodup

theorem mem_of_mem_insert (member : l ∈ (s.insert name value).labels) :
    l = ⟨name, value⟩ ∨ l ∈ s.labels := Slots.mem_of_mem_assign member

/-- Each label is an old one or one of those inserted. -/
theorem mem_of_mem_foldl_insert
    (member : l ∈ (pairs.foldl (fun s (name, value) => s.insert name value) s).labels) :
    l ∈ s.labels ∨ (l.name, l.value) ∈ pairs := by
  induction pairs generalizing s with
  | nil => exact .inl member
  | cons pair pairs ih =>
      rcases ih member with member | member
      · rcases mem_of_mem_insert member with rfl | member
        · exact .inr (.head _)
        · exact .inl member
      · exact .inr (.tail _ member)

theorem mem_of_mem_ofList (member : l ∈ (ofList pairs).labels) : (l.name, l.value) ∈ pairs := by
  rcases mem_of_mem_foldl_insert member with member | member
  · cases member
  · exact member

/-! ## The name of the metric -/

/-- The labels with the name of the metric before all others. -/
def metricFirst (s : LabelSet) : List Label :=
  s.metric?.toList.map (Label.mk Label.metricName) ++ s.others

/-- Printing the name of the metric first leaves no label out. -/
theorem perm_metricFirst (s : LabelSet) : s.metricFirst.Perm s.labels := by
  rw [metricFirst, metric?, get?, ← Slots.filter_eq_lookup s.nodup]
  exact List.filter_append_perm (·.name == Label.metricName) s.labels

/-- The name of the metric does not depend on the order of labels. -/
theorem metric?_eq_of_perm (perm : s.labels.Perm t.labels) : s.metric? = t.metric? := by
  refine Option.ext fun value => ?_
  rw [metric?, metric?, get?_eq_some_iff, get?_eq_some_iff]
  exact perm.mem_iff

theorem others_of_metricFirst (same : t.labels = s.metricFirst) : t.others = s.others := by
  have nothing : (s.metric?.toList.map (Label.mk Label.metricName)).filter
      (·.name != Label.metricName) = [] := by
    rw [List.filter_map]
    exact List.map_eq_nil_iff.mpr (List.filter_eq_nil_iff.mpr fun value _ => by simp)
  rw [others, same, metricFirst, List.filter_append, nothing, List.nil_append]
  exact List.filter_eq_self.mpr fun l member => (List.mem_filter.mp member).2

end LabelSet

end MetricLabels
