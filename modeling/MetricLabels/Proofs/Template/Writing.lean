import MetricLabels.Proofs.Template.Reading

/-!
# Writing a template

Nodes are written so that they can be read without the backslashes: a dollar sign
of a text has a backslash before it, and a name is in braces.  A backslash of a
text is left as it is.  So it is read back unless it comes before the dollar sign
of a placeholder.

That is the only thing that can go wrong between two nodes.  The nodes that a text
can spell out at all are all those that can be written (`parseWith_spell_iff`).
-/

namespace MetricLabels.Template

variable {before text after : List Char} {ps : List Piece} {nodes : List Node}

/-! ## Text -/

/-- The text with a backslash before every dollar sign. -/
def escape (text : List Char) : List Char :=
  text.flatMap fun c => if c = '$' then ['\\', '$'] else [c]

theorem escape_cons (c : Char) (cs : List Char) :
    escape (c :: cs) = if c = '$' then '\\' :: '$' :: escape cs else c :: escape cs := by
  rw [escape, List.flatMap_cons]
  split
  next => rfl
  next => rfl

/-- Escaped text does not start with a dollar sign. -/
theorem head?_escape_ne (text : List Char) : (escape text).head? ≠ some '$' := by
  cases text with
  | nil => exact fun absent => nomatch absent
  | cons c cs =>
      rw [escape_cons]
      split
      next => exact fun same => absurd (Option.some.inj same) (by decide)
      next other => exact fun same => other (Option.some.inj same)

/-- Dropping the backslashes gives the text again. -/
theorem unescape_escape (text : List Char) : EscapeMode.unescape (escape text) = text := by
  induction text with
  | nil => rfl
  | cons c cs ih =>
      rw [escape_cons]
      split
      next dollar => rw [EscapeMode.unescape, ih, dollar]
      next => rw [unescape_cons fun _ => head?_escape_ne cs, ih]

theorem getLast?_escape (text : List Char) : (escape text).getLast? = text.getLast? := by
  rw [← getLast?_unescape, unescape_escape]

/-- No placeholder starts in escaped text, whatever stands around it. -/
theorem quiet_escape (before text rest : List Char) : Quiet before (escape text) rest := by
  induction text generalizing before with
  | nil => exact .nil
  | cons c cs ih =>
      rw [escape_cons]
      split
      next =>
        -- The dollar sign starts no placeholder, since the backslash is before it.
        refine quiet_cons.mpr ⟨by simp [startsAt_length], quiet_cons.mpr ⟨?_, ih _⟩⟩
        rw [startsAt_length, List.getLast?_concat]
        simp
      next other => exact quiet_cons.mpr ⟨by simp [startsAt_length, other], ih _⟩

/-! ## Nodes -/

/-- The node as it is written. -/
def Node.written : Node → List Char
  | .text content => escape content.toList
  | .placeholder name => '$' :: '\x7b' :: (name.toList ++ ['\x7d'])

/-- The nodes as they are written. -/
def spell (nodes : List Node) : String := String.ofList (nodes.flatMap Node.written)

/-- A node may be followed by another. -/
inductive Node.Joins : Node → Node → Prop where
  /-- A text does not end with a backslash, and what follows it is no text. -/
  | text {content name : String} :
      content.toList.getLast? ≠ some '\\' → Joins (.text content) (.placeholder name)
  /-- Anything may follow a placeholder. -/
  | placeholder (name : String) (n : Node) : Joins (.placeholder name) n

/-- The nodes can be written one behind the other. -/
structure Writable (nodes : List Node) : Prop where
  /-- No text is empty. -/
  nonempty : .text "" ∉ nodes
  /-- The names are made of word characters.  They may be empty. -/
  named : ∀ name, .placeholder name ∈ nodes → ∀ c ∈ name.toList, isWord c = true
  /-- Neighbours do not run into each other. -/
  joined : nodes.IsChain Node.Joins

theorem Writable.tail {n : Node} (writable : Writable (n :: nodes)) : Writable nodes where
  nonempty := fun member => writable.nonempty (.tail _ member)
  named := fun name member => writable.named name (.tail _ member)
  joined := (List.isChain_cons.mp writable.joined).2

/-! ## What is written is read -/

/-- The piece that the node is written as. -/
def Node.piece : Node → Piece
  | .text content => .text (escape content.toList)
  | .placeholder name => .placeholder (written (.placeholder name)) name

/-- What is written for a node is read as the node. -/
theorem Node.node_piece (n : Node) : n.piece.node .strip = n := by
  cases n with
  | text content =>
      show Node.text (String.ofList (EscapeMode.unescape (escape content.toList))) = .text content
      rw [unescape_escape, String.ofList_toList]
  | placeholder name => rfl

theorem escape_ne_nil {content : String} (nonempty : content ≠ "") :
    escape content.toList ≠ [] := by
  intro empty
  have nothing := unescape_escape content.toList
  rw [empty] at nothing
  exact nonempty (String.toList_eq_nil_iff.mp nothing.symm)

/-- A name in braces is spelled out whatever stands behind. -/
theorem spelled_written {name : String} (word : ∀ c ∈ name.toList, isWord c = true)
    (rest : List Char) : Spelled name.toList (Node.placeholder name).written rest := .braced word

/-- The nodes are the layout of what they are written as. -/
theorem Writable.layout : ∀ {nodes : List Node} {before : List Char}, Writable nodes →
    (∀ name, nodes.head? = some (.placeholder name) → before.getLast? ≠ some '\\') →
    Layout before (nodes.flatMap Node.written) (nodes.map Node.piece) []
  | [], _, _, _ => .nil _ _
  | .text content :: nodes, before, writable, _ => by
      have nonempty : escape content.toList ≠ [] :=
        escape_ne_nil fun empty => writable.nonempty (empty ▸ .head _)
      have unescaped : ∀ name, nodes.head? = some (.placeholder name) →
          (before ++ escape content.toList).getLast? ≠ some '\\' := by
        intro name next
        cases (List.isChain_cons.mp writable.joined).1 _ next with
        | text ends =>
            rwa [List.getLast?_append_of_ne_nil _ nonempty, getLast?_escape]
      refine .text nonempty (quiet_escape _ _ _) ?_ (writable.tail.layout unescaped)
      cases nodes with
      | nil => exact .inl rfl
      | cons n nodes =>
          cases (List.isChain_cons.mp writable.joined).1 _ rfl with
          | @text _ name _ =>
              have spelled := spelled_written (writable.named name (.tail _ (.head _)))
                (nodes.flatMap Node.written)
              exact .inr (spelled.startsAt_length (unescaped name rfl))
  | .placeholder name :: nodes, before, writable, unescaped => by
      have spelled := spelled_written (writable.named name (.head _))
        (nodes.flatMap Node.written)
      have layout := Layout.placeholder (unescaped name rfl) spelled
        (writable.tail.layout fun _ _ => spelled.getLast?_ne)
      rwa [String.ofList_toList] at layout

/-! ## What is read can be written -/

/-- The name of a placeholder has word characters only. -/
theorem Spelled.word {name source rest : List Char} (spelled : Spelled name source rest) :
    ∀ c ∈ name, isWord c = true := by
  cases spelled with
  | bare _ word _ => exact word
  | braced word => exact word

/-- The nodes of a layout can be written one behind the other, since no two of its texts
meet. -/
theorem Layout.joins (layout : Layout before text ps after) :
    (ps.map (Piece.node .strip)).IsChain Node.Joins := by
  induction layout with
  | nil => exact .nil
  | @text before s _ _ ps nonempty _ stops layout ih =>
      have stretch := layout.isText_head stops
      refine List.isChain_cons.mpr ⟨fun n next => ?_, ih⟩
      cases layout with
      | nil => cases next
      | text => cases stretch _ rfl
      | placeholder unescaped _ _ =>
          cases next
          refine .text ?_
          rw [String.toList_ofList]
          show (EscapeMode.unescape s).getLast? ≠ some '\\'
          rwa [getLast?_unescape, ← List.getLast?_append_of_ne_nil before nonempty]
  | placeholder _ _ _ ih => exact List.isChain_cons.mpr ⟨fun n _ => .placeholder _ n, ih⟩

/-- So what is read from a text can be written. -/
theorem Layout.writable (layout : Layout before text ps after) :
    Writable (ps.map (Piece.node .strip)) where
  nonempty := by
    intro member
    obtain ⟨⟨source⟩ | ⟨_, _⟩, member, same⟩ := List.mem_map.mp member
    · have empty : EscapeMode.unescape source = [] :=
        String.ofList_eq_empty_iff.mp (Node.text.inj same)
      have nothing := getLast?_unescape source
      rw [empty] at nothing
      exact layout.ne_nil_of_text member (List.getLast?_eq_none_iff.mp nothing.symm)
    · cases same
  named := by
    intro name member
    obtain ⟨⟨_⟩ | ⟨source, _⟩, member, same⟩ := List.mem_map.mp member
    · cases same
    · cases same
      obtain ⟨u, v, cut⟩ := List.append_of_mem member
      exact (layout.spelled cut).word
  joined := layout.joins

/-- Nodes are read back as they were written, with the backslash before a dollar
sign dropped, exactly if they can follow each other: no text is empty, next to
another or has a backslash at its end before a placeholder, and every name is made
of word characters. -/
theorem parseWith_spell_iff (nodes : List Node) :
    parseWith ⟨.strip⟩ (spell nodes) = .ok ⟨nodes⟩ ↔ Writable nodes := by
  rw [parseWith_eq_ok_iff]
  constructor
  · rintro ⟨ps, layout, rfl⟩
    exact layout.writable
  · intro writable
    have layout : Layout [] (nodes.flatMap Node.written) (nodes.map Node.piece) [] :=
      writable.layout fun _ _ absent => nomatch absent
    refine ⟨nodes.map Node.piece, ?_, ?_⟩
    · rwa [spell, String.toList_ofList]
    · rw [List.map_map]
      exact (List.map_id'' Node.node_piece nodes).symm

/-- A backslash is kept before a dollar sign of the text, and not doubled. -/
example : spell [.text "a\\$", .placeholder "b", .placeholder ""] =
    "a\\\\$$\x7bb\x7d$\x7b\x7d" := by
  decide +kernel

end MetricLabels.Template
