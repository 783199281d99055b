import Mathlib.Data.List.Induction
import MetricLabels.Proofs.LabelSet.Edits
import MetricLabels.Template.Basic
import Std.Data.HashMap.Lemmas
import Std.Data.TreeMap.Lemmas

/-!
# Sources of variables agree

Maps and label sets can be made of names and values, inserted from left to right.
A name may come more than once, and then the last value counts (`lastValue?`).  A
map replaces the value of a key and a label set writes over the slot of a name, and
both answer for every name with its last value.  So each of them fills in the same
text (`render_of_value?`).
-/

namespace MetricLabels

variable {pairs : List (String × String)}

/-- The value of the last of the pairs with the name. -/
def lastValue? (pairs : List (String × String)) (name : String) : Option String :=
  pairs.findSomeRev? fun (key, value) => if key = name then some value else none

example : lastValue? [("a", "1"), ("b", "2"), ("a", "3")] "a" = some "3" := by decide

/-- The text of the nodes with the last value of its name for each variable, and
nothing for a variable whose name does not occur.  All other text is as it is. -/
def filledIn (pairs : List (String × String)) : List Template.Node → String
  | [] => ""
  | .text content :: nodes => content ++ filledIn pairs nodes
  | .placeholder name :: nodes => (lastValue? pairs name).getD "" ++ filledIn pairs nodes

/-- The pair behind all others decides the value of its name. -/
theorem lastValue?_snoc (pairs : List (String × String)) (key value name : String) :
    lastValue? (pairs ++ [(key, value)]) name =
      if key = name then some value else lastValue? pairs name := by
  rw [lastValue?, lastValue?, List.findSomeRev?_eq_findSome?_reverse, List.reverse_append,
    List.reverse_singleton, List.singleton_append, List.findSome?_cons,
    ← List.findSomeRev?_eq_findSome?_reverse]
  by_cases same : key = name <;> simp [same]

/-! ## The last value counts -/

/-- A map that is hashed answers with the last value. -/
theorem value?_hashMap (pairs : List (String × String)) (name : String) :
    VariableSource.value? (Std.HashMap.ofList pairs) name = lastValue? pairs name := by
  show (Std.HashMap.ofList pairs)[name]? = _
  rw [Std.HashMap.ofList_eq_insertMany_empty, Std.HashMap.getElem?_insertMany_list,
    Std.HashMap.getElem?_empty, Option.or_none]
  simp only [beq_iff_eq]
  rfl

/-- So does a map that is ordered. -/
theorem value?_treeMap (pairs : List (String × String)) (name : String) :
    VariableSource.value? (Std.TreeMap.ofList pairs) name = lastValue? pairs name := by
  show (Std.TreeMap.ofList pairs)[name]? = _
  rw [Std.TreeMap.ofList_eq_insertMany_empty, Std.TreeMap.getElem?_insertMany_list,
    Std.TreeMap.getElem?_emptyc, Option.or_none]
  simp only [Std.LawfulEqCmp.compare_eq_iff_eq]
  rfl

/-- So does a label set, whose slots are written over. -/
theorem value?_labelSet (pairs : List (String × String)) (name : String) :
    VariableSource.value? (LabelSet.ofList pairs) name = lastValue? pairs name := by
  show (LabelSet.ofList pairs).get? name = _
  -- The last pair is inserted last.
  induction pairs using List.reverseRecOn with
  | nil => rfl
  | append_singleton pairs p ih =>
      rw [LabelSet.ofList, List.foldl_append, ← LabelSet.ofList]
      show ((LabelSet.ofList pairs).insert p.1 p.2).get? name = _
      rw [LabelSet.get?_insert, lastValue?_snoc, ih]

/-! ## The same text -/

section

variable {σ : Type} [VariableSource σ] {data : σ}

/-- A source that answers with the last values fills them in. -/
theorem render_of_value? (answers : ∀ name, VariableSource.value? data name = lastValue? pairs name)
    (nodes : List Template.Node) : Template.render data ⟨nodes⟩ = filledIn pairs nodes := by
  induction nodes with
  | nil => rfl
  | cons n nodes ih =>
      have step : Template.render data ⟨n :: nodes⟩ =
          n.render (VariableSource.value? data) ++ Template.render data ⟨nodes⟩ := by
        rw [Template.render, List.map_cons, String.join_cons]
        rfl
      rw [step, ih]
      cases n with
      | text content => rfl
      | placeholder name =>
          rw [Template.Node.render, answers]
          rfl

/-- A reference answers as its target does. -/
theorem render_reference (data : σ) (t : Template) : t.render (Reference.mk data) = t.render data :=
  rfl

end

end MetricLabels
