import MetricLabels.Proofs.Template.Joints
import MetricLabels.Proofs.Template.Variables

/-!
# Rendering twice

A text in which no placeholder starts is a template of its own, without variables,
and is rendered as it is (`exists_parse_of_quiet`).  What a template is rendered to
is such a text, if no value brings a dollar sign and no dollar sign of the text
stands free before a placeholder (`Layout.quiet_filled`).  The dollar signs of the
text keep what is before them, and what is behind them changes only for those at the
end of a stretch.

So a second rendering changes nothing: `render_idempotent`.
-/

namespace MetricLabels.Template

section

variable {before text : List Char} {ps : List Piece} {value : String → Option String}

theorem mem_starts {i : Nat} : i ∈ starts text ↔ startsAt text i = true := by
  rw [starts, List.mem_filter, List.mem_range, and_iff_right_iff_imp]
  intro start
  rw [startsAt, Bool.and_eq_true, Bool.and_eq_true, beq_iff_eq] at start
  exact (List.getElem?_eq_some_iff.mp start.1.1).1

/-- What the text is rendered to starts no placeholder, whatever is before it.  At the
start of a piece no backslash is before the text, so a dollar sign there was free
already. -/
theorem Layout.quiet_filled (layout : Layout before text ps [])
    (unescaped : text ≠ [] → before.getLast? ≠ some '\\')
    (apart : ∀ i ∈ starts (before ++ text), ¬EndsInDollar ((before ++ text).take i))
    (plain : ∀ source name, .placeholder source name ∈ ps → '$' ∉ ((value name).getD "").toList)
    (before' : List Char) : Quiet before' (ps.flatMap (Piece.filled value)) [] := by
  induction ps generalizing before text before' with
  | nil => exact .nil
  | cons p ps ih =>
      have plain' := fun source name member => plain source name (.tail p member)
      rw [List.flatMap_cons]
      cases layout with
      | @text _ s rest _ _ nonempty quiet stops layout =>
          have first : Quiet before' s (ps.flatMap (Piece.filled value) ++ []) := by
            refine quiet.congr (fun _ escaped => absurd escaped (unescaped ?_)) fun ends opens => ?_
            · exact List.append_ne_nil_of_left_ne_nil nonempty rest
            · rcases stops with rfl | start
              · obtain rfl := layout.unique (.nil _ _)
                exact opens
              · rw [← List.append_assoc] at apart
                have free := apart _ (mem_starts.mpr start)
                rw [List.take_left] at free
                exact absurd ends free
          rw [← List.append_assoc] at apart
          exact first.append (ih layout
            (fun more => getLast?_ne_of_startsAt (stops.resolve_left more)) apart plain' _)
      | @placeholder _ s rest _ name _ unescaped spelled layout =>
          rw [← List.append_assoc] at apart
          exact (quiet_of_notMem (plain _ _ (.head _))).append
            (ih layout (fun _ => spelled.getLast?_ne) apart plain' _)

end

/-- A text in which no placeholder starts has no variables and is rendered as it
is. -/
theorem exists_parse_of_quiet {text : String} (quiet : Quiet [] text.toList []) :
    ∃ t, parse text = .ok t ∧ t.variableNames = [] ∧
      ∀ {σ : Type} [VariableSource σ] (data : σ), t.render data = text := by
  by_cases empty : text = ""
  · subst empty
    exact ⟨⟨[]⟩, parseWith_eq_ok_iff.mpr ⟨[], .nil _ _, rfl⟩, rfl, fun _ => rfl⟩
  · have nonempty : text.toList ≠ [] := fun nothing => empty (String.toList_eq_nil_iff.mp nothing)
    have layout : Layout [] (text.toList ++ []) [.text text.toList] [] :=
      .text nonempty quiet (.inl rfl) (.nil _ _)
    rw [List.append_nil] at layout
    refine ⟨⟨[.text text]⟩, parseWith_eq_ok_iff.mpr ⟨_, layout, ?_⟩, rfl, fun _ => ?_⟩
    · show _ = [Node.text (String.ofList text.toList)]
      rw [String.ofList_toList]
    · rw [render, List.map_singleton, String.join_cons]
      exact String.append_empty

variable {σ : Type} [VariableSource σ] {text : String} {t : Template} {data : σ}

/-- If no dollar sign stands in the values that are shown, and none without a
backslash before it stands in the text right before a placeholder, then what the text
is rendered to is a template without variables, which is rendered as it is. -/
theorem render_idempotent (parsed : parse text = .ok t)
    (plain : ∀ name ∈ t.variableNames, '$' ∉ (shown data name).toList)
    (apart : ∀ i ∈ starts text.toList, ¬EndsInDollar (text.toList.take i)) :
    ∃ u, parse (t.render data) = .ok u ∧ u.variableNames = [] ∧
      ∀ {τ : Type} [VariableSource τ] (data' : τ), u.render data' = t.render data := by
  obtain ⟨ps, layout, nodes⟩ := parseWith_eq_ok_iff.mp parsed
  refine exists_parse_of_quiet ?_
  rw [toList_render_pieces nodes]
  refine layout.quiet_filled (fun _ absent => nomatch absent) apart
    (fun source name member => ?_) []
  refine plain name (((listsVariables t.nodes).mem_iff name).mpr ?_)
  rw [nodes]
  exact List.mem_map_of_mem member

/-- The free dollar sign is at the end, and the one before a placeholder has a
backslash before it.  A value that opens a brace behind it starts no placeholder. -/
theorem render_idempotent_behind_backslash :
    ∃ t u, parse "\\$$a\x7bx\x7d$b$" = .ok t ∧
      (∀ name ∈ t.variableNames,
        '$' ∉ (shown (LabelSet.ofList [("a", "\x7by\x7d\\")]) name).toList) ∧
      (∀ i ∈ starts "\\$$a\x7bx\x7d$b$".toList,
        ¬EndsInDollar ("\\$$a\x7bx\x7d$b$".toList.take i)) ∧
      t.render (LabelSet.ofList [("a", "\x7by\x7d\\")]) = "\\$\x7by\x7d\\\x7bx\x7d$" ∧
      parse "\\$\x7by\x7d\\\x7bx\x7d$" = .ok u ∧ u.variableNames = [] ∧
      ∀ {τ : Type} [VariableSource τ] (data' : τ), u.render data' = "\\$\x7by\x7d\\\x7bx\x7d$" := by
  have parsed : parse "\\$$a\x7bx\x7d$b$" = .ok ⟨[.text "\\$", .placeholder "a",
      .text "\x7bx\x7d", .placeholder "b", .text "$"]⟩ := by decide +kernel
  have plain : ∀ name ∈ variableNames ⟨[.text "\\$", .placeholder "a", .text "\x7bx\x7d",
      .placeholder "b", .text "$"]⟩,
      '$' ∉ (shown (LabelSet.ofList [("a", "\x7by\x7d\\")]) name).toList := by decide +kernel
  have apart : ∀ i ∈ starts "\\$$a\x7bx\x7d$b$".toList,
      ¬EndsInDollar ("\\$$a\x7bx\x7d$b$".toList.take i) := by decide +kernel
  obtain ⟨u, parsed', rest⟩ := render_idempotent parsed plain apart
  exact ⟨_, u, parsed, plain, apart, by decide +kernel, parsed', rest⟩

end MetricLabels.Template
