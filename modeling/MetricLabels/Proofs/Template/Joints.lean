import MetricLabels.Proofs.Template.Reading

/-!
# Templates next to each other

Where placeholders start within a stretch of text depends on what surrounds it in
two ways only.  A backslash before the stretch can escape its first dollar sign,
and a dollar sign at its end can start a placeholder with what follows
(`Quiet.congr`).  A layout behind a stretch looks back in the first way alone
(`Layout.congr`).

So two templates can be written one behind the other if nothing at the joint
reaches over it (`CleanJoint`).  Their texts read as the nodes of both, with two texts
that meet there made one, and rendering goes on from one to the other.  That is
`parseWith_append`.
-/

namespace MetricLabels.Template

variable {before before' s s' rest rest' after name text text' : List Char} {ps qs : List Piece}

/-! ## Stretches in other surroundings -/

/-- The text ends with a dollar sign that has no backslash before it. -/
def EndsInDollar (text : List Char) : Prop :=
  text.getLast? = some '$' ∧ text.dropLast.getLast? ≠ some '\\'

instance (text : List Char) : Decidable (EndsInDollar text) := inferInstanceAs (Decidable (_ ∧ _))

theorem endsInDollar_concat : EndsInDollar (before ++ ['$']) ↔ before.getLast? ≠ some '\\' := by
  rw [EndsInDollar, List.getLast?_concat, List.dropLast_concat, and_iff_right rfl]

/-- More text behind does not undo the start of a placeholder. -/
theorem startsAt_append (start : startsAt (before ++ rest) before.length = true)
    (rest' : List Char) : startsAt (before ++ (rest ++ rest')) before.length = true := by
  obtain ⟨unescaped, tail, rfl, opens⟩ := startsAt_length_iff.mp start
  refine startsAt_length_iff.mpr ⟨unescaped, tail ++ rest', rfl, ?_⟩
  cases tail with
  | nil => cases opens
  | cons => exact opens

/-- A stretch is quiet if both of its parts are, in each other's surroundings. -/
theorem Quiet.append (first : Quiet before s (s' ++ rest)) (second : Quiet (before ++ s) s' rest) :
    Quiet before (s ++ s') rest := by
  induction s generalizing before with
  | nil => rwa [List.append_nil] at second
  | cons c s ih =>
      obtain ⟨here, later⟩ := quiet_cons.mp first
      rw [List.append_cons] at second
      rw [← List.append_assoc] at here
      exact quiet_cons.mpr ⟨here, ih later second⟩

/-- A stretch stays quiet if a backslash before it stays, and if no character comes
to stand behind its last dollar sign with which a placeholder can go on. -/
theorem Quiet.congr (quiet : Quiet before s rest)
    (escapes : s.head? = some '$' → before.getLast? = some '\\' → before'.getLast? = some '\\')
    (opens : EndsInDollar (before ++ s) →
      rest'.head?.any opensVariable = true → rest.head?.any opensVariable = true) :
    Quiet before' s rest' := by
  induction s generalizing before before' with
  | nil => exact .nil
  | cons c s ih =>
      obtain ⟨here, later⟩ := quiet_cons.mp quiet
      refine quiet_cons.mpr ⟨Bool.eq_false_iff.mpr fun start => ?_, ih later ?_ ?_⟩
      · obtain ⟨unescaped, tail, dollar, next⟩ := startsAt_length_iff.mp start
        obtain ⟨rfl, rfl⟩ := List.cons.inj dollar
        have unescaped' : before.getLast? ≠ some '\\' := fun escaped =>
          unescaped (escapes rfl escaped)
        -- Only behind the last character can the next one have changed.
        have next' : (s ++ rest).head?.any opensVariable = true := by
          cases s with
          | nil => exact opens (endsInDollar_concat.mpr unescaped') next
          | cons => exact next
        cases here.symm.trans (startsAt_length_iff.mpr ⟨unescaped', _, rfl, next'⟩)
      · rw [List.getLast?_concat, List.getLast?_concat]
        exact fun _ => id
      · rwa [← List.append_cons]

/-- A layout behind another text stays as it is, if a first dollar sign is escaped
there as it was before. -/
theorem Layout.congr (layout : Layout before text ps after)
    (escapes : text.head? = some '$' →
      (before.getLast? = some '\\' ↔ before'.getLast? = some '\\')) :
    Layout before' text ps after := by
  have last {s : List Char} (nonempty : s ≠ []) (before before' : List Char) :
      (before ++ s).getLast? = (before' ++ s).getLast? := by
    rw [List.getLast?_append_of_ne_nil _ nonempty, List.getLast?_append_of_ne_nil _ nonempty]
  induction layout generalizing before' with
  | nil => exact .nil _ _
  | @text before s rest _ _ nonempty quiet stops layout ih =>
      refine .text nonempty (quiet.congr (fun dollar => (escapes ?_).mp) fun _ => id)
        (stops.imp_right fun start => ?_) (ih ?_)
      · rw [List.head?_append, dollar]
        rfl
      · rw [startsAt_length_iff] at start ⊢
        rwa [last nonempty before' before]
      · rw [last nonempty before before']
        exact fun _ => .rfl
  | @placeholder before s rest _ _ _ unescaped spelled layout ih =>
      refine .placeholder (fun escaped => unescaped ((escapes ?_).mpr escaped)) spelled (ih ?_)
      · obtain ⟨tail, rfl, _⟩ := spelled.exists_cons
        rfl
      · rw [last spelled.ne_nil before before']
        exact fun _ => .rfl

/-! ## Joining -/

/-- The nodes with another one in front.  Two texts that meet are one. -/
def Node.inFrontOf : Node → List Node → List Node
  | .text content, .text content' :: nodes => .text (content ++ content') :: nodes
  | n, nodes => n :: nodes

/-- The nodes of one template followed by those of another, with two texts that meet
made one. -/
def joinNodes : List Node → List Node → List Node
  | [], nodes => nodes
  | [n], nodes => n.inFrontOf nodes
  | m :: n :: nodes, nodes' => m :: joinNodes (n :: nodes) nodes'

instance : Append Template where
  append t u := ⟨joinNodes t.nodes u.nodes⟩

theorem joinNodes_placeholder (name : String) (nodes nodes' : List Node) :
    joinNodes (.placeholder name :: nodes) nodes' =
      .placeholder name :: joinNodes nodes nodes' := by
  cases nodes with
  | nil => rfl
  | cons => rfl

/-- A text that is made one with the next is rendered in front of it. -/
theorem join_map_inFrontOf (value : String → Option String) (n : Node) (nodes : List Node) :
    String.join ((n.inFrontOf nodes).map (Node.render value)) =
      n.render value ++ String.join (nodes.map (Node.render value)) := by
  rw [Node.inFrontOf.eq_def]
  split
  next => rw [List.map_cons, List.map_cons, String.join_cons, String.join_cons, Node.render,
      Node.render, Node.render, String.append_assoc]
  next => rw [List.map_cons, String.join_cons]

/-- Nodes with two texts made one are rendered as before. -/
theorem join_map_joinNodes (value : String → Option String) (nodes nodes' : List Node) :
    String.join ((joinNodes nodes nodes').map (Node.render value)) =
      String.join (nodes.map (Node.render value)) ++
        String.join (nodes'.map (Node.render value)) := by
  fun_induction joinNodes nodes nodes' with
  | case1 nodes' => exact String.empty_append.symm
  | case2 n nodes' =>
      rw [join_map_inFrontOf, List.map_singleton, String.join_cons]
      exact congrArg (· ++ _) String.append_empty.symm
  | case3 m n nodes nodes' ih =>
      rw [List.map_cons, List.map_cons, String.join_cons, String.join_cons, ih, String.append_assoc]

/-- Rendering goes on from one template to the other. -/
theorem render_append {σ : Type} [VariableSource σ] (data : σ) (t u : Template) :
    (t ++ u).render data = t.render data ++ u.render data :=
  join_map_joinNodes (VariableSource.value? data) t.nodes u.nodes

/-! ## What reaches over a joint -/

/-- The text ends with a placeholder that has no braces. -/
def EndsInName (text : List Char) : Prop :=
  ∃ start name, text = start ++ '$' :: name ∧ start.getLast? ≠ some '\\' ∧ name ≠ [] ∧
    ∀ c ∈ name, isWord c = true

/-- Nothing at the end of the first text reaches into the second. -/
structure CleanJoint (text text' : List Char) : Prop where
  /-- No backslash comes to stand before a dollar sign. -/
  escape : text.getLast? = some '\\' → text'.head? ≠ some '$'
  /-- No dollar sign comes to start a placeholder. -/
  dollar : EndsInDollar text → text'.head?.any opensVariable = false
  /-- No name goes on. -/
  name : EndsInName text → text'.head?.any isWord = false

/-- A placeholder at the end keeps its name if no name goes on there. -/
theorem Spelled.append (spelled : Spelled name s rest) (unescaped : before.getLast? ≠ some '\\')
    (clean : CleanJoint (before ++ (s ++ rest)) text') : Spelled name s (rest ++ text') := by
  cases spelled with
  | braced word => exact .braced word
  | bare nonempty word stops =>
      refine .bare nonempty word fun c next => ?_
      cases rest with
      | cons d rest => exact stops c next
      | nil =>
          rw [List.append_nil] at clean
          have ended := clean.name ⟨before, name, rfl, unescaped, nonempty, word⟩
          rw [show text'.head? = some c from next] at ended
          exact ended

/-- A stretch at the end goes on with the text that it meets. -/
theorem Layout.exists_text_join (nonempty : s ≠ []) (quiet : Quiet before s [])
    (layout : Layout (before ++ s) text' qs []) (clean : CleanJoint (before ++ s) text') :
    ∃ rs, Layout before (s ++ text') rs [] ∧ ∀ mode, rs.map (Piece.node mode) =
      ((Piece.text s).node mode).inFrontOf (qs.map (Piece.node mode)) := by
  -- The dollar sign at the end is the only one that could start something with what follows.
  have quiet' : Quiet before s text' := quiet.congr (fun _ => id) fun ends opens => by
    rw [clean.dollar ends] at opens
    cases opens
  cases layout with
  | nil => exact ⟨[.text s], .text nonempty quiet' (.inl rfl) (.nil _ _), fun _ => rfl⟩
  | placeholder unescaped spelled layout =>
      exact ⟨_, .text nonempty quiet' (.inr (spelled.startsAt_length unescaped))
        (.placeholder unescaped spelled layout), fun _ => rfl⟩
  | @text _ s' rest' _ qs _ quiet'' stops layout =>
      have alone : s.getLast? = some '\\' → s'.head? ≠ some '$' := by
        intro last dollar
        refine clean.escape ?_ ?_
        · rwa [List.getLast?_append_of_ne_nil _ nonempty]
        · rw [List.head?_append, dollar]
          rfl
      rw [List.append_assoc before] at stops layout
      refine ⟨.text (s ++ s') :: qs, ?_, fun mode => ?_⟩
      · rw [← List.append_assoc]
        exact .text (List.append_ne_nil_of_left_ne_nil nonempty s') (quiet'.append quiet'') stops
          layout
      · rw [List.map_cons, Piece.node, mode.apply_append alone, String.ofList_append]
        rfl

/-- Where nothing reaches over the joint, the pieces of both texts are those of the
whole, but for two stretches that meet there. -/
theorem Layout.exists_join (layout : Layout before text ps [])
    (layout' : Layout (before ++ text) text' qs []) (clean : CleanJoint (before ++ text) text') :
    ∃ rs, Layout before (text ++ text') rs [] ∧ ∀ mode, rs.map (Piece.node mode) =
      joinNodes (ps.map (Piece.node mode)) (qs.map (Piece.node mode)) := by
  induction ps generalizing before text with
  | nil =>
      cases layout with
      | nil =>
          rw [List.append_nil] at layout'
          exact ⟨qs, layout', fun _ => rfl⟩
  | cons p ps ih =>
      cases layout with
      | @text _ s rest _ _ nonempty quiet stops layout =>
          cases rest with
          | nil =>
              -- This text is the last piece, and may meet a text at the start of the other.
              obtain rfl := layout.unique (.nil _ _)
              rw [List.append_nil] at layout' clean ⊢
              exact layout'.exists_text_join nonempty quiet clean
          | cons c rest =>
              have start := startsAt_append (stops.resolve_left (List.cons_ne_nil c rest)) text'
              rw [← List.append_assoc] at layout' clean
              obtain ⟨rs, joined, nodes⟩ := ih layout layout' clean
              refine ⟨.text s :: rs, ?_, fun mode => ?_⟩
              · rw [List.append_assoc]
                exact .text nonempty (quiet.congr (fun _ => id) fun _ => id) (.inr start) joined
              · cases ps with
                | nil => cases layout.whole
                | cons => exact congrArg _ (nodes mode)
      | @placeholder _ s rest _ name _ unescaped spelled layout =>
          have spelled' := spelled.append unescaped clean
          rw [← List.append_assoc] at layout' clean
          obtain ⟨rs, joined, nodes⟩ := ih layout layout' clean
          refine ⟨.placeholder s (String.ofList name) :: rs, ?_, fun mode => ?_⟩
          · rw [List.append_assoc]
            exact .placeholder unescaped spelled' joined
          · rw [List.map_cons, nodes]
            exact (joinNodes_placeholder _ _ _).symm

/-! ## Templates -/

variable {options : Options} {x y : String} {t u : Template}

/-- Two texts that are templates and have nothing that reaches over the joint make
up a template.  It has the nodes of both, with two texts that meet made one, and is
rendered by rendering both. -/
theorem parseWith_append (first : parseWith options x = .ok t)
    (second : parseWith options y = .ok u)
    (clean : CleanJoint x.toList y.toList) :
    parseWith options (x ++ y) = .ok (t ++ u) ∧
      ∀ {σ : Type} [VariableSource σ] (data : σ),
        (t ++ u).render data = t.render data ++ u.render data := by
  refine ⟨?_, fun data => render_append data t u⟩
  obtain ⟨ps, layout, nodes⟩ := parseWith_eq_ok_iff.mp first
  obtain ⟨qs, layout', nodes'⟩ := parseWith_eq_ok_iff.mp second
  have behind : Layout ([] ++ x.toList) y.toList qs [] :=
    layout'.congr fun dollar =>
      ⟨fun absent => (nomatch absent), fun escaped => absurd dollar (clean.escape escaped)⟩
  obtain ⟨rs, joined, nodes''⟩ := layout.exists_join behind clean
  refine parseWith_eq_ok_iff.mpr ⟨rs, ?_, ?_⟩
  · rwa [String.toList_append]
  · rw [nodes'', ← nodes, ← nodes']
    rfl

/-- The dollar sign at the end of the first text is escaped, so the brace that comes
behind it opens nothing, though the backslash is dropped. -/
theorem parseWith_append_behind_backslash :
    parseWith ⟨.strip⟩ "$a \\$" = .ok ⟨[.placeholder "a", .text " $"]⟩ ∧
      parseWith ⟨.strip⟩ "\x7bc\x7d$d" = .ok ⟨[.text "\x7bc\x7d", .placeholder "d"]⟩ ∧
      CleanJoint "$a \\$".toList "\x7bc\x7d$d".toList ∧
      parseWith ⟨.strip⟩ ("$a \\$" ++ "\x7bc\x7d$d") =
        .ok ⟨[.placeholder "a", .text " $\x7bc\x7d", .placeholder "d"]⟩ ∧
      ∀ {σ : Type} [VariableSource σ] (data : σ),
        render data ⟨[.placeholder "a", .text " $\x7bc\x7d", .placeholder "d"]⟩ =
          render data ⟨[.placeholder "a", .text " $"]⟩ ++
            render data ⟨[.text "\x7bc\x7d", .placeholder "d"]⟩ := by
  have first : parseWith ⟨.strip⟩ "$a \\$" = .ok ⟨[.placeholder "a", .text " $"]⟩ := by
    decide +kernel
  have second : parseWith ⟨.strip⟩ "\x7bc\x7d$d" = .ok ⟨[.text "\x7bc\x7d", .placeholder "d"]⟩ := by
    decide +kernel
  have clean : CleanJoint "$a \\$".toList "\x7bc\x7d$d".toList :=
    ⟨by decide +kernel, fun ends => absurd ends (by decide +kernel), fun _ => by decide +kernel⟩
  exact ⟨first, second, clean, parseWith_append first second clean⟩

end MetricLabels.Template
