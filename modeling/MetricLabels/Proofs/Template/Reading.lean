import Mathlib.Data.List.TakeWhile
import MetricLabels.Proofs.Template.Layout
import MetricLabels.Proofs.Text.Lines
import MetricLabels.Proofs.Token.Spelling

/-!
# Templates are read along their layout

Reading starts each piece afresh, so it knows no character before the piece.  At
the start of a piece none is needed: a placeholder ends with no backslash, and
text ends where the text does or where a placeholder starts, and there no
backslash is before it.  So each piece of the layout is read as it is, up to the
end of the text or a brace that does not close (`exists_reading`).

The nodes of a template are therefore the pieces that its text is cut into, and
rendering fills them in one by one (`parse_eq_ok_iff_cut`).
-/

namespace MetricLabels

/-! ## From one cursor to the next -/

namespace Cursor

variable {c d e : Cursor} {ch : Char} {s s' rest : List Char} {p : Char → Bool}

/-- The characters `s` lie between two places in the text. -/
structure Passes (c : Cursor) (s : List Char) (d : Cursor) : Prop where
  ahead : c.ahead = s ++ d.ahead
  pos : d.pos = c.pos.after s

/-- One stretch is passed behind the other. -/
theorem Passes.trans (first : c.Passes s d) (second : d.Passes s' e) : c.Passes (s ++ s') e where
  ahead := by rw [first.ahead, second.ahead, List.append_assoc]
  pos := by rw [second.pos, first.pos, Position.after_append]

/-- Fewer characters are ahead behind some that were passed. -/
theorem Passes.length_ahead_lt (passes : c.Passes s d) (nonempty : s ≠ []) :
    d.ahead.length < c.ahead.length := by
  have positive := List.length_pos_iff.mpr nonempty
  rw [passes.ahead, List.length_append]
  omega

theorem passes_read (cut : c.ahead = ch :: rest) :
    c.Passes [ch] ⟨rest, c.pos.advance ch, some (c.ahead, c.pos)⟩ := ⟨cut, rfl⟩

end Cursor

namespace Template

variable {before rest name : List Char} {c d : Cursor} {ps : List Piece} {ch : Char}
  {chs : List Char}

/-! ## Text -/

/-- The run that keeps backslashes reads a stretch up to the next placeholder.  Of
the characters before, its memory tells no more than whether the last is a
backslash. -/
theorem exists_readText (c : Cursor) (before : List Char) (prev : Option Char) (text : List Char)
    (memory : prev = some '\\' ↔ before.getLast? = some '\\') :
    ∃ s d, readText .preserve prev text c = (text.reverse ++ s, d) ∧ c.Passes s d ∧
      Quiet before s d.ahead ∧
      (d.ahead = [] ∨ startsAt (before ++ s ++ d.ahead) (before ++ s).length = true) := by
  induction ahead : c.ahead generalizing c before prev text with
  | nil =>
      exact ⟨[], { c with last := none }, by rw [readText_of_nil ahead, List.append_nil],
        ⟨rfl, rfl⟩, .nil, .inl ahead⟩
  | cons ch cs ih =>
      -- The reader stops where a placeholder starts, told by the characters around it.
      have here : startsAt (before ++ ch :: cs) before.length = true ↔
          ch = '$' ∧ prev ≠ some '\\' ∧ cs.head?.any opensVariable = true := by
        rw [startsAt_length_iff, ne_eq, ne_eq, memory]
        constructor
        · rintro ⟨unescaped, tail, same, opens⟩
          cases same
          exact ⟨rfl, unescaped, opens⟩
        · rintro ⟨rfl, unescaped, opens⟩
          exact ⟨unescaped, cs, rfl, opens⟩
      by_cases stops : ch = '$' ∧ prev ≠ some '\\' ∧ cs.head?.any opensVariable = true
      · refine ⟨[], { c with last := none },
          by rw [readText_of_cons ahead, if_pos stops, List.append_nil], ⟨rfl, rfl⟩, .nil, .inr ?_⟩
        rw [List.append_nil, ahead]
        exact here.mpr stops
      · obtain ⟨s, d, run, passes, quiet, stops'⟩ :=
          ih ⟨cs, c.pos.advance ch, some (c.ahead, c.pos)⟩ (before ++ [ch]) (some ch) (ch :: text)
            (by rw [List.getLast?_concat]) rfl
        have whole := (Cursor.passes_read ahead).trans passes
        refine ⟨ch :: s, d, ?_, whole, quiet_cons.mpr ⟨?_, quiet⟩, ?_⟩
        · rw [readText_of_cons ahead, if_neg stops, if_neg fun drops => nomatch drops.2.2]
          refine run.trans ?_
          rw [List.reverse_cons, List.append_assoc]
          rfl
        · rw [Bool.eq_false_iff, ← List.cons_append, ← List.singleton_append, ← whole.ahead, ahead]
          exact fun start => stops (here.mp start)
        · simpa using stops'

/-- In both modes text goes up to the same place, and backslashes before dollar
signs are all that it may lack. -/
theorem exists_readText_apply (c : Cursor) (unescaped : before.getLast? ≠ some '\\') :
    ∃ s d, (∀ mode : EscapeMode, readText mode none [] c = (mode.apply s, d)) ∧ c.Passes s d ∧
      Quiet before s d.ahead ∧
      (d.ahead = [] ∨ startsAt (before ++ s ++ d.ahead) (before ++ s).length = true) := by
  obtain ⟨s, d, run, rest⟩ := exists_readText c before none []
    (iff_of_false (fun absent => nomatch absent) unescaped)
  obtain ⟨same, replaced⟩ := readText_agree .start c
  rw [run] at same replaced
  refine ⟨s, d, fun mode => ?_, rest⟩
  cases mode with
  | preserve => exact run
  | strip => exact Prod.ext replaced.eq_unescape same.symm

/-! ## Placeholders -/

/-- A brace opens that does not close behind word characters. -/
def Unclosed (text : List Char) : Prop :=
  ∃ inner, text = '\x7b' :: inner ∧ (inner.dropWhile isWord).head? ≠ some '\x7d'

/-- No layout starts with a brace that does not close. -/
theorem Unclosed.not_layout (unclosed : Unclosed rest) (unescaped : before.getLast? ≠ some '\\') :
    ¬Layout before ('$' :: rest) ps [] := by
  obtain ⟨inner, rfl, unclosed⟩ := unclosed
  intro layout
  generalize same : '$' :: '\x7b' :: inner = text at layout
  cases layout with
  | nil => cases same
  | text nonempty quiet _ _ =>
      have plain := quiet.startsAt_eq nonempty
      rw [← same, startsAt_length, bne_iff_ne.mpr unescaped] at plain
      cases plain
  | @placeholder _ _ rest _ name _ _ spelled _ =>
      cases spelled with
      | bare nonempty word _ =>
          obtain ⟨c, cs, rfl⟩ := List.exists_cons_of_ne_nil nonempty
          obtain rfl := (List.cons.inj (List.cons.inj same).2).1
          cases word _ (.head _)
      | braced word =>
          have whole : inner = name ++ '\x7d' :: rest := by simpa using same
          rw [whole, List.dropWhile_append_of_pos word] at unclosed
          exact unclosed rfl

/-- What reading a name comes to. -/
inductive Naming (braced : Bool) (c : Cursor) : Prop where
  /-- The name goes on as long as there are word characters, and no brace closes it. -/
  | ended (name : List Char) (d : Cursor) : readName braced c = (false, name, d) →
      c.Passes name d → (∀ x ∈ name, isWord x = true) → (∀ x ∈ d.ahead.head?, isWord x = false) →
      (braced = true → d.ahead.head? ≠ some '\x7d') → Naming braced c
  /-- Behind the word characters the brace that was opened is closed. -/
  | closed (name : List Char) (d : Cursor) : braced = true → readName braced c = (true, name, d) →
      c.Passes (name ++ ['\x7d']) d → (∀ x ∈ name, isWord x = true) → Naming braced c

/-- Each run of the reader of names ends in one of these ways, by induction on what is
ahead. -/
theorem naming (braced : Bool) (c : Cursor) : Naming braced c := by
  induction ahead : c.ahead generalizing c with
  | nil =>
      refine .ended [] { c with last := none } (readName_of_nil ahead) ⟨rfl, rfl⟩
        (List.forall_mem_nil _) ?_ ?_
      · rw [ahead]
        exact fun _ absent => nomatch absent
      · rw [ahead]
        exact fun _ absent => nomatch absent
  | cons ch cs ih =>
      have first := Cursor.passes_read ahead
      -- The character closes the name, goes on with it or ends it.
      by_cases closes : braced = true ∧ ch = '\x7d'
      · obtain ⟨rfl, rfl⟩ := closes
        exact .closed [] _ rfl (by rw [readName_of_cons ahead, if_pos ⟨rfl, rfl⟩]) first
          (List.forall_mem_nil _)
      · by_cases word : isWord ch = true
        · cases ih ⟨cs, c.pos.advance ch, some (c.ahead, c.pos)⟩ rfl with
          | ended name d run passes words stops unclosed =>
              refine .ended (ch :: name) d ?_ (first.trans passes)
                (List.forall_mem_cons.mpr ⟨word, words⟩) stops unclosed
              rw [readName_of_cons ahead, if_neg closes, if_pos word, run]
          | closed name d opened run passes words =>
              refine .closed (ch :: name) d opened ?_ (first.trans passes)
                (List.forall_mem_cons.mpr ⟨word, words⟩)
              rw [readName_of_cons ahead, if_neg closes, if_pos word, run]
        · refine .ended [] { c with last := none }
            (by rw [readName_of_cons ahead, if_neg closes, if_neg word]) ⟨rfl, rfl⟩
            (List.forall_mem_nil _) ?_ ?_
          · rw [ahead]
            rintro x ⟨⟩
            exact Bool.eq_false_iff.mpr word
          · rw [ahead]
            exact fun opened same => closes ⟨opened, Option.some.inj same⟩

/-- A name in braces is read to the closing brace, or there is none. -/
theorem readPlaceholder_braced {inner : List Char} (cut : c.ahead = '\x7b' :: inner) :
    (∃ name tail d, readPlaceholder c = .ok (String.ofList name, d) ∧ c.Passes tail d ∧
      Spelled name ('$' :: tail) d.ahead) ∨
    Unclosed c.ahead ∧ readPlaceholder c = .error (.unbalancedBrace c.pos) := by
  have opened : (c.peek == some '\x7b') = true := by rw [Cursor.peek, cut]; rfl
  rw [readPlaceholder, opened, Cursor.read_of_cons cut]
  cases naming true ⟨inner, c.pos.advance '\x7b', some (c.ahead, c.pos)⟩ with
  | ended name d run passes words stops unclosed =>
      refine .inr ⟨⟨inner, cut, ?_⟩, ?_⟩
      -- No brace stands behind the word characters.
      · have same : inner = name ++ d.ahead := passes.ahead
        rw [same, List.dropWhile_append_of_pos words]
        cases rest : d.ahead with
        | nil => rintro ⟨⟩
        | cons x xs =>
            rw [rest] at stops unclosed
            rw [List.dropWhile_cons_of_neg (Bool.eq_false_iff.mp (stops x rfl))]
            exact unclosed rfl
      · simp only [if_true, run, and_self]
  | closed name d _ run passes words =>
      refine .inl ⟨name, _, d, ?_, (Cursor.passes_read cut).trans passes, .braced words⟩
      simp only [if_true, run]
      rfl

/-- A name without braces goes up to the first character that is no part of it. -/
theorem readPlaceholder_bare (cut : c.ahead = ch :: chs) (word : isWord ch = true) :
    ∃ name tail d, readPlaceholder c = .ok (String.ofList name, d) ∧ c.Passes tail d ∧
      Spelled name ('$' :: tail) d.ahead := by
  have bare : (c.peek == some '\x7b') = false := by
    rw [Cursor.peek, cut]
    exact beq_eq_false_iff_ne.mpr fun same => by cases same; cases word
  cases naming false c with
  | ended name d run passes words stops _ =>
      refine ⟨name, name, d, ?_, passes, .bare ?_ words stops⟩
      · rw [readPlaceholder, bare]
        simp only [Bool.false_eq_true, if_false, false_and, run]
      · rintro rfl
        have same : c.ahead = d.ahead := passes.ahead
        rw [← same, cut] at stops
        cases word.symm.trans (stops ch rfl)
  | closed _ _ braced => cases braced

/-- Behind a dollar sign that opens it, a placeholder is read or its brace does not
close. -/
theorem readPlaceholder_cases (opens : c.ahead.head?.any opensVariable = true) :
    (∃ name tail d, readPlaceholder c = .ok (String.ofList name, d) ∧ c.Passes tail d ∧
      Spelled name ('$' :: tail) d.ahead) ∨
    Unclosed c.ahead ∧ readPlaceholder c = .error (.unbalancedBrace c.pos) := by
  cases cut : c.ahead with
  | nil =>
      rw [cut] at opens
      cases opens
  | cons ch rest =>
      rw [cut] at opens
      rcases Bool.or_eq_true_iff.mp opens with word | brace
      · exact .inl (readPlaceholder_bare cut word)
      · obtain rfl := beq_iff_eq.mp brace
        exact cut ▸ readPlaceholder_braced cut

/-! ## Pieces -/

/-- Behind an unescaped place where no placeholder starts, the text up to the next
one is read. -/
theorem exists_stretch (cut : c.ahead = ch :: chs) (unescaped : before.getLast? ≠ some '\\')
    (plain : ¬(ch = '$' ∧ chs.head?.any opensVariable = true)) :
    ∃ s d, c.Passes s d ∧ s ≠ [] ∧ Quiet before s d.ahead ∧
      (d.ahead = [] ∨ startsAt (before ++ s ++ d.ahead) (before ++ s).length = true) ∧
      ∀ options, readNodes options c =
        (readNodes options d).map ((Piece.text s).node options.escape :: ·) := by
  obtain ⟨s, d, run, passes, quiet, stops⟩ := exists_readText_apply c unescaped
  refine ⟨s, d, passes, ?_, quiet, stops, fun options => ?_⟩
  · rintro rfl
    have same : d.ahead = ch :: chs := passes.ahead.symm.trans cut
    rw [same, List.append_nil] at stops
    rcases stops with ended | start
    · cases ended
    · obtain ⟨_, tail, dollar, opens⟩ := startsAt_length_iff.mp start
      cases dollar
      exact plain ⟨rfl, opens⟩
  · rw [readNodes_of_text cut plain, run]
    rfl

/-- A placeholder that starts is read, or it has a brace that does not close. -/
theorem exists_placeholder (cut : c.ahead = '$' :: chs)
    (opens : chs.head?.any opensVariable = true) :
    (∃ name source d, c.Passes source d ∧ Spelled name source d.ahead ∧
      ∀ options, readNodes options c =
        (readNodes options d).map (.placeholder (String.ofList name) :: ·)) ∨
    Unclosed chs ∧
      ∀ options, readNodes options c = .error (.unbalancedBrace (c.pos.after ['$'])) := by
  have passes := Cursor.passes_read cut
  have step (options : Options) : readNodes options c = _ := readNodes_of_dollar cut opens
  rw [Cursor.read_of_cons cut] at step
  rcases readPlaceholder_cases (c := ⟨chs, c.pos.advance '$', some (c.ahead, c.pos)⟩) opens with
    ⟨name, tail, d, read, passes', spelled⟩ | ⟨unclosed, failed⟩
  · exact .inl ⟨name, '$' :: tail, d, passes.trans passes', spelled, fun options => by
      rw [step, read]⟩
  · exact .inr ⟨unclosed, fun options => by
      rw [step, failed]
      rfl⟩

/-! ## The whole text -/

/-- What reading comes to behind the characters `before`, if the text ahead is cut
into the pieces. -/
inductive Reading (before : List Char) (c : Cursor) (ps : List Piece) : Prop where
  /-- The pieces go on to the end of the text, and each is read. -/
  | ended : Layout before c.ahead ps [] →
      (∀ options, readNodes options c = .ok (ps.map (Piece.node options.escape))) →
      Reading before c ps
  /-- Behind the pieces a placeholder starts with a brace that does not close. -/
  | unclosed {rest : List Char} : Layout before c.ahead ps ('$' :: rest) →
      (before ++ ps.flatMap Piece.source).getLast? ≠ some '\\' → Unclosed rest →
      (∀ options, readNodes options c = .error
        (.unbalancedBrace (.behind (before ++ ps.flatMap Piece.source ++ ['$'])))) →
      Reading before c ps

/-- A piece that is read may stand in front of what is read behind it. -/
theorem Reading.cons {p : Piece} (reading : Reading (before ++ p.source) d ps)
    (first : ∀ {after}, Layout (before ++ p.source) d.ahead ps after →
      Layout before c.ahead (p :: ps) after)
    (step : ∀ options, readNodes options c =
      (readNodes options d).map (p.node options.escape :: ·)) :
    Reading before c (p :: ps) := by
  cases reading with
  | ended layout read =>
      refine .ended (first layout) fun options => ?_
      rw [step, read]
      rfl
  | unclosed layout unescaped unclosed read =>
      have whole : before ++ (p :: ps).flatMap Piece.source =
          before ++ p.source ++ ps.flatMap Piece.source := by
        rw [List.flatMap_cons, List.append_assoc]
      refine .unclosed (first layout) (whole ▸ unescaped) unclosed fun options => ?_
      rw [step, read, whole]
      rfl

/-- Every text is cut into pieces, up to its end or to the first placeholder with
a brace that does not close. -/
theorem exists_reading (c : Cursor) (before : List Char) (here : c.pos = .behind before)
    (unescaped : c.ahead ≠ [] → before.getLast? ≠ some '\\') :
    ∃ ps, Reading before c ps := by
  cases cut : c.ahead with
  | nil => exact ⟨[], .ended (cut ▸ .nil _ _) fun _ => readNodes_of_nil cut⟩
  | cons ch chs =>
      have unescaped := unescaped (cut ▸ List.cons_ne_nil ch chs)
      by_cases starts : ch = '$' ∧ chs.head?.any opensVariable = true
      · obtain ⟨rfl, opens⟩ := starts
        rcases exists_placeholder cut opens with
          ⟨name, source, d, passes, spelled, step⟩ | ⟨unclosed, failed⟩
        · have shorter := passes.length_ahead_lt spelled.ne_nil
          obtain ⟨ps, reading⟩ := exists_reading d (before ++ source)
            (by rw [passes.pos, here, Position.behind_after]) fun _ => spelled.getLast?_ne
          refine ⟨.placeholder source (String.ofList name) :: ps, reading.cons ?_ step⟩
          intro after layout
          rw [passes.ahead]
          exact .placeholder unescaped spelled layout
        · refine ⟨[], .unclosed (cut ▸ .nil _ _) ?_ unclosed fun options => ?_⟩
          · simpa using unescaped
          · rw [failed, here, Position.behind_after]
            simp
      · obtain ⟨s, d, passes, nonempty, quiet, stops, step⟩ := exists_stretch cut unescaped starts
        have shorter := passes.length_ahead_lt nonempty
        obtain ⟨ps, reading⟩ := exists_reading d (before ++ s)
          (by rw [passes.pos, here, Position.behind_after]) fun more =>
            getLast?_ne_of_startsAt (stops.resolve_left more)
        refine ⟨.text s :: ps, reading.cons ?_ step⟩
        intro after layout
        rw [passes.ahead]
        exact .text nonempty quiet stops layout
termination_by c.ahead.length
decreasing_by all_goals exact shorter

/-- Every text is read from its start. -/
theorem exists_reading_ofString (text : String) : ∃ ps, Reading [] (.ofString text) ps :=
  exists_reading (.ofString text) [] rfl fun _ absent => nomatch absent

/-! ## Templates -/

section

variable {text : String} {t : Template} {options : Options}

/-- A text is read as a template exactly if it has a layout, and then each piece is
a node. -/
theorem parseWith_eq_ok_iff : parseWith options text = .ok t ↔
    ∃ ps, Layout [] text.toList ps [] ∧ t.nodes = ps.map (Piece.node options.escape) := by
  rw [parseWith]
  obtain ⟨ps, ⟨layout, read⟩ | ⟨layout, unescaped, unclosed, failed⟩⟩ :=
    exists_reading_ofString text
  · rw [read]
    constructor
    · intro parsed
      cases parsed
      exact ⟨ps, layout, rfl⟩
    · rintro ⟨qs, layout', nodes⟩
      rw [layout.unique layout', ← nodes]
      rfl
  · rw [failed]
    constructor
    · rintro ⟨⟩
    · rintro ⟨qs, whole, _⟩
      obtain ⟨_, _, behind⟩ := layout.exists_append whole
      exact absurd behind (unclosed.not_layout unescaped)

/-- What is written in the place of the piece: the value of the variable, or the
text itself. -/
def Piece.filled (value : String → Option String) : Piece → List Char
  | .text source => source
  | .placeholder _ name => ((value name).getD "").toList

theorem toList_render (value : String → Option String) (p : Piece) :
    ((p.node .preserve).render value).toList = p.filled value := by
  cases p with
  | text source => exact String.toList_ofList
  | placeholder => rfl

/-- A template is rendered by filling in its pieces. -/
theorem toList_render_pieces {σ : Type} [VariableSource σ]
    (nodes : t.nodes = ps.map (Piece.node .preserve)) (data : σ) :
    (t.render data).toList = ps.flatMap (Piece.filled (VariableSource.value? data)) := by
  rw [render, nodes, String.toList_join, List.map_map, List.flatMap_map]
  simp only [Function.comp_apply, toList_render]

/-- A template is read from a text exactly if its nodes are the placeholders of the
text and the stretches between them, as they are written.  So the text is rendered
by putting a value in the place of each placeholder and leaving all else as it
is. -/
theorem parse_eq_ok_iff_cut (text : String) (t : Template) :
    parse text = .ok t ↔ ∃ ps, Cut text.toList ps ∧ t.nodes = ps.map (Piece.node .preserve) ∧
      ∀ {σ : Type} [VariableSource σ] (data : σ),
        (t.render data).toList = ps.flatMap (Piece.filled (VariableSource.value? data)) := by
  simp only [cut_iff_layout]
  rw [parse, parseWith_eq_ok_iff]
  constructor
  · rintro ⟨ps, layout, nodes⟩
    exact ⟨ps, layout, nodes, toList_render_pieces nodes⟩
  · exact fun ⟨ps, layout, nodes, _⟩ => ⟨ps, layout, nodes⟩

example : parse "\\$a$$b$" = .ok ⟨[.text "\\$a$", .placeholder "b", .text "$"]⟩ := by
  decide +kernel

end

end Template

end MetricLabels
