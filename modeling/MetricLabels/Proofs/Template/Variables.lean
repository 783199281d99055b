import Mathlib.Algebra.Order.BigOperators.Group.List
import Mathlib.Algebra.Order.Ring.Nat
import Mathlib.Data.List.Induction
import MetricLabels.Proofs.LabelSet.Edits
import MetricLabels.Template.Basic

/-!
# What a template depends on

The variables of a template are the names of its placeholders, in the order in
which they first occur (`listsVariables`).  They are also what its text depends on:
sources that agree on them give the same text (`render_congr`), and a longer value
of any one of them gives a longer text (`length_render_lt`).  No other part of the
text can make up for that.

The main statement is `render_depends_on_variableNames`.
-/

namespace MetricLabels.Template

variable {nodes : List Node} {name : String}

/-! ## The list of variables -/

/-- The names are the variables of the nodes, each once, and in the order in which
they first occur. -/
structure ListsVariables (nodes : List Node) (names : List String) : Prop where
  mem_iff : ∀ name, name ∈ names ↔ .placeholder name ∈ nodes
  nodup : names.Nodup
  ordered : names.Pairwise fun name name' =>
    nodes.idxOf (.placeholder name) < nodes.idxOf (.placeholder name')

namespace ListsVariables

variable {names : List String}

theorem ordered_snoc (lists : ListsVariables nodes names) (n : Node) :
    names.Pairwise fun name name' =>
      (nodes ++ [n]).idxOf (.placeholder name) < (nodes ++ [n]).idxOf (.placeholder name') := by
  refine lists.ordered.imp_of_mem fun member member' before => ?_
  rwa [List.idxOf_append_of_mem ((lists.mem_iff _).mp member),
    List.idxOf_append_of_mem ((lists.mem_iff _).mp member')]

/-- A node that brings no new variable leaves the list as it is. -/
theorem known (lists : ListsVariables nodes names) {n : Node}
    (known : ∀ name, n = .placeholder name → name ∈ names) :
    ListsVariables (nodes ++ [n]) names where
  mem_iff := by
    intro name
    rw [List.mem_append, List.mem_singleton, ← lists.mem_iff]
    exact ⟨.inl, fun member => member.elim id fun same => known name same.symm⟩
  nodup := lists.nodup
  ordered := lists.ordered_snoc n

/-- A new variable is listed behind the others. -/
theorem fresh (lists : ListsVariables nodes names) (fresh : name ∉ names) :
    ListsVariables (nodes ++ [.placeholder name]) (names ++ [name]) where
  mem_iff := by
    intro name'
    rw [List.mem_append, List.mem_append, List.mem_singleton, List.mem_singleton, ← lists.mem_iff,
      Node.placeholder.injEq]
  nodup := List.nodup_append.mpr ⟨lists.nodup, List.nodup_singleton name, by
    rintro _ member _ (_ | ⟨_, ⟨⟩⟩) rfl
    exact fresh member⟩
  ordered := by
    refine List.pairwise_append.mpr ⟨lists.ordered_snoc _, List.pairwise_singleton _ _, ?_⟩
    intro known member new same
    obtain rfl := List.mem_singleton.mp same
    have absent : .placeholder new ∉ nodes := fun member => fresh ((lists.mem_iff new).mpr member)
    have member' := (lists.mem_iff known).mp member
    rw [List.idxOf_append_of_mem member', List.idxOf_append_of_notMem absent]
    exact Nat.lt_of_lt_of_le (List.idxOf_lt_length_iff.mpr member') (Nat.le_add_right _ _)

end ListsVariables

/-- Text adds no variable. -/
theorem variableNames_snoc_text (nodes : List Node) (content : String) :
    variableNames ⟨nodes ++ [.text content]⟩ = variableNames ⟨nodes⟩ := by
  rw [variableNames, List.filterMap_append]
  show (_ ++ []).eraseDups = _
  rw [List.append_nil]
  rfl

/-- A placeholder adds its variable behind all others, unless that is there already. -/
theorem variableNames_snoc_placeholder (nodes : List Node) (name : String) :
    variableNames ⟨nodes ++ [.placeholder name]⟩ =
      if name ∈ variableNames ⟨nodes⟩ then variableNames ⟨nodes⟩
      else variableNames ⟨nodes⟩ ++ [name] := by
  have names : (nodes ++ [Node.placeholder name]).filterMap Node.name? =
      nodes.filterMap Node.name? ++ [name] := List.filterMap_append
  rw [variableNames, variableNames, names, List.eraseDups_append, List.removeAll]
  simp only [List.mem_eraseDups]
  generalize nodes.filterMap Node.name? = names
  by_cases known : name ∈ names
  · simp [known]
  · simp [known, List.eraseDups_cons]

/-- The variables of a template are listed in the order in which they first
occur. -/
theorem listsVariables (nodes : List Node) : ListsVariables nodes (variableNames ⟨nodes⟩) := by
  induction nodes using List.reverseRecOn with
  | nil => exact ⟨fun _ => ⟨nofun, nofun⟩, .nil, .nil⟩
  | append_singleton nodes n ih =>
      cases n with
      | text content =>
          rw [variableNames_snoc_text]
          exact ih.known nofun
      | placeholder name =>
          rw [variableNames_snoc_placeholder]
          split
          next member =>
            refine ih.known fun _ same => ?_
            cases same
            exact member
          next fresh => exact ih.fresh fresh

/-! ## The text -/

/-- What stands for a variable: its value, or nothing. -/
def shown {σ : Type} [VariableSource σ] (data : σ) (name : String) : String :=
  (VariableSource.value? data name).getD ""

section

variable {σ τ : Type} [VariableSource σ] [VariableSource τ] {d : σ} {e : τ} {t : Template}

/-- Sources that show the same for all variables give the same text. -/
theorem render_congr (same : ∀ name ∈ t.variableNames, shown d name = shown e name) :
    t.render d = t.render e := by
  refine congrArg String.join (List.map_congr_left fun n member => ?_)
  cases n with
  | text content => rfl
  | placeholder name => exact same name (((listsVariables t.nodes).mem_iff name).mpr member)

/-- A rendered text is as long as its nodes. -/
theorem length_render (t : Template) (d : σ) : (t.render d).length =
    (t.nodes.map fun n => (n.render (VariableSource.value? d)).length).sum := by
  rw [render, ← String.length_toList, String.toList_join, List.flatMap_map, List.length_flatMap]
  simp only [String.length_toList]

/-- Where more is shown for one of the variables, and for none of them less, the text
is longer. -/
theorem length_render_lt (member : name ∈ t.variableNames)
    (more : (shown d name).length < (shown e name).length)
    (least : ∀ other, (shown d other).length ≤ (shown e other).length) :
    (t.render d).length < (t.render e).length := by
  rw [length_render, length_render]
  have placed := ((listsVariables t.nodes).mem_iff name).mp member
  refine List.sum_lt_sum _ _ (fun n _ => ?_) ⟨.placeholder name, placed, more⟩
  cases n with
  | text content => exact Nat.le_refl _
  | placeholder other => exact least other

end

/-- A label set can be changed in any variable alone so that the text is another. -/
theorem exists_render_ne {t : Template} (member : name ∈ t.variableNames) (d : LabelSet) :
    ∃ e : LabelSet, (∀ other, other ≠ name → e.get? other = d.get? other) ∧
      t.render e ≠ t.render d := by
  have shown_insert (other : String) : shown (d.insert name (shown d name ++ "+")) other =
      if name = other then shown d name ++ "+" else shown d other := by
    show ((d.insert name _).get? other).getD "" = _
    rw [LabelSet.get?_insert]
    split
    next => rfl
    next => rfl
  have longer : (shown d name).length < (shown d name ++ "+").length := by
    rw [String.length_append]
    exact Nat.lt_succ_self _
  refine ⟨d.insert name (shown d name ++ "+"), fun other apart => ?_, fun same => ?_⟩
  · rw [LabelSet.get?_insert, if_neg apart.symm]
  · refine absurd (congrArg String.length same).symm
      (length_render_lt member ?_ fun other => ?_).ne
    · rwa [shown_insert, if_pos rfl]
    · rw [shown_insert]
      split
      next here => exact here ▸ longer.le
      next => exact Nat.le_refl _

/-- The variables of a template are the names of its placeholders, each once, in the
order in which they first occur.  Its text depends on nothing but what a source
shows for them, and on each of them: whatever the labels are, another value of that
variable alone gives another text. -/
theorem render_depends_on_variableNames (t : Template) :
    ListsVariables t.nodes t.variableNames ∧
      (∀ {σ τ : Type} [VariableSource σ] [VariableSource τ] (d : σ) (e : τ),
        (∀ name ∈ t.variableNames, shown d name = shown e name) → t.render d = t.render e) ∧
      ∀ name ∈ t.variableNames, ∀ d : LabelSet, ∃ e : LabelSet,
        (∀ other, other ≠ name → e.get? other = d.get? other) ∧ t.render e ≠ t.render d :=
  ⟨listsVariables t.nodes, fun _ _ => render_congr, fun _ => exists_render_ne⟩

/-- An empty value is as good as none, and a label that is no variable does not
matter.  Any variable does, also the one that occurs twice. -/
theorem render_depends_on_variableNames_of_two :
    (∀ name ∈ variableNames ⟨[.placeholder "a", .text "-", .placeholder "b", .placeholder "a"]⟩,
      shown (LabelSet.ofList [("a", "1"), ("c", "2")]) name =
        shown (LabelSet.ofList [("b", ""), ("a", "1")]) name) ∧
    render (LabelSet.ofList [("a", "1"), ("c", "2")])
        ⟨[.placeholder "a", .text "-", .placeholder "b", .placeholder "a"]⟩ =
      render (LabelSet.ofList [("b", ""), ("a", "1")])
        ⟨[.placeholder "a", .text "-", .placeholder "b", .placeholder "a"]⟩ ∧
    ∃ e : LabelSet, (∀ other, other ≠ "a" → e.get? other = LabelSet.empty.get? other) ∧
      render e ⟨[.placeholder "a", .text "-", .placeholder "b", .placeholder "a"]⟩ ≠
        render LabelSet.empty
          ⟨[.placeholder "a", .text "-", .placeholder "b", .placeholder "a"]⟩ := by
  obtain ⟨_, congr, changes⟩ := render_depends_on_variableNames
    ⟨[.placeholder "a", .text "-", .placeholder "b", .placeholder "a"]⟩
  have same : ∀ name ∈
      variableNames ⟨[.placeholder "a", .text "-", .placeholder "b", .placeholder "a"]⟩,
      shown (LabelSet.ofList [("a", "1"), ("c", "2")]) name =
        shown (LabelSet.ofList [("b", ""), ("a", "1")]) name := by decide +kernel
  exact ⟨same, congr _ _ same, changes "a" (by decide +kernel) LabelSet.empty⟩

end MetricLabels.Template
