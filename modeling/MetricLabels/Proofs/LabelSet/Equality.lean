import Mathlib.Logic.Basic
import MetricLabels.Proofs.LabelSet.Edits

/-!
# Equality of label sets

The test for equality compares the sizes and looks up the labels of the first
set in the second.  Since no name occurs twice on either side, this comes to the
same as looking up all names in both (`beq_iff_get?`), and so the test does not
prefer one of the sides.  The order of the labels does not count.

The main statement is `beq_extensional`.  It is about all sets, and each of them
is made by the insertion of its own labels.
-/

namespace MetricLabels.LabelSet

variable {s t : LabelSet} {pairs pairs' : List (String × String)}

/-! ## Labels and values -/

/-- Sets have the same labels in some order if they answer alike for every name. -/
theorem perm_iff_get? :
    s.labels.Perm t.labels ↔ ∀ name, s.get? name = t.get? name := by
  rw [List.perm_ext_iff_of_nodup s.nodup_labels t.nodup_labels]
  constructor
  · intro same name
    refine Option.ext fun value => ?_
    rw [get?_eq_some_iff, get?_eq_some_iff]
    exact same ⟨name, value⟩
  · intro same l
    have looked := same l.name
    rw [← get?_eq_some_iff, ← get?_eq_some_iff, looked]

theorem beq_iff_get? : (s == t) = true ↔ ∀ name, s.get? name = t.get? name :=
  beq_iff_perm.trans perm_iff_get?

/-- The order of labels is all that equality overlooks. -/
theorem equivalence_beq : Equivalence fun s t : LabelSet => (s == t) = true := by
  simp only [beq_iff_get?]
  exact ⟨fun _ _ => rfl, fun same name => (same name).symm,
    fun same same' name => (same name).trans (same' name)⟩

/-! ## What keeps sets equal -/

/-- The value of a name behind an edit depends on the values before it only. -/
theorem get?_apply_congr (e : Edit) (same : ∀ name, s.get? name = t.get? name) (name : String) :
    (e.apply s).2.get? name = (e.apply t).2.get? name := by
  refine Option.ext fun value => ?_
  rw [Edit.get?_apply_eq_some_iff, Edit.get?_apply_eq_some_iff, same]

/-- Equal sets give back the same value for an edit and are equal behind it. -/
theorem beq_apply (e : Edit) (same : (s == t) = true) :
    (e.apply s).1 = (e.apply t).1 ∧ ((e.apply s).2 == (e.apply t).2) = true := by
  rw [beq_iff_get?] at same ⊢
  rw [Edit.apply_fst, Edit.apply_fst]
  exact ⟨same e.name, get?_apply_congr e same⟩

/-- Where all names differ, the order in which they are given does not count. -/
theorem beq_ofList_of_perm (nodup : (pairs.map Prod.fst).Nodup) (perm : pairs'.Perm pairs) :
    (ofList pairs == ofList pairs') = true := by
  have nodup' : (pairs'.map Prod.fst).Nodup := (perm.map _).nodup_iff.mpr nodup
  rw [beq_iff_perm, labels_ofList nodup, labels_ofList nodup']
  exact (perm.map _).symm

/-- Two sets are equal exactly if they have the same value for each name, and
exactly if the labels of one are those of the other in some order.  Equality is
an equivalence.  It is kept by every edit, which gives the same value on both
sides, and sets are equal that are made of the same pairs with different names
in two orders.  All this holds of all the sets that can be made: each is made of
its own labels. -/
theorem beq_extensional :
    (∀ s t : LabelSet, ((s == t) = true ↔ ∀ name, s.get? name = t.get? name) ∧
      ((s == t) = true ↔ t.labels.Perm s.labels)) ∧
    (Equivalence fun s t : LabelSet => (s == t) = true) ∧
    (∀ (s t : LabelSet) (e : Edit), (s == t) = true →
      (e.apply s).1 = (e.apply t).1 ∧ ((e.apply s).2 == (e.apply t).2) = true) ∧
    (∀ pairs pairs' : List (String × String), (pairs.map Prod.fst).Nodup → pairs'.Perm pairs →
      (ofList pairs == ofList pairs') = true) ∧
    ∀ s : LabelSet, ofList s.toList = s :=
  ⟨fun _ _ => ⟨beq_iff_get?, beq_iff_perm.trans (List.perm_comm)⟩, equivalence_beq,
    fun _ _ e same => beq_apply e same, fun _ _ nodup perm => beq_ofList_of_perm nodup perm,
    ofList_toList⟩

/-- Two labels in two orders make equal sets, and stay equal when one of them is
removed. -/
theorem beq_extensional_of_two :
    (LabelSet.ofList [("a", "1"), ("b", "2")] == .ofList [("b", "2"), ("a", "1")]) = true ∧
      ((LabelSet.ofList [("a", "1"), ("b", "2")]).erase "a" ==
        (LabelSet.ofList [("b", "2"), ("a", "1")]).erase "a") = true := by
  obtain ⟨_, _, edited, permuted, _⟩ := beq_extensional
  have same := permuted [("a", "1"), ("b", "2")] [("b", "2"), ("a", "1")] (by decide) (.swap _ _ _)
  exact ⟨same, (edited _ _ (.remove "a") same).2⟩

end MetricLabels.LabelSet
