import Mathlib.Data.List.Basic
import Mathlib.Data.List.Chain
import MetricLabels.Proofs.Template.EscapeModes
import MetricLabels.Proofs.Token.Spelling

/-!
# The layout of a template

Where the placeholders of a text start can be told index by index (`startsAt`),
from the character there and the ones before and behind it.  A layout cuts the
text at these places: a piece is a placeholder, or a stretch of text in which no
placeholder starts and that goes on to the next one.

No piece of a layout looks at the pieces before it.  Still the placeholders of a
layout start where the whole text says (`Layout.offsets_eq`), and no stretch of
text is next to another (`Layout.isChain`).  These facts are enough to make a
layout (`Joined.layout`), and a text has no other one (`Layout.unique`).
-/

namespace MetricLabels.Template

/-! ## Where placeholders start -/

/-- Whether a placeholder starts at the given index: a dollar sign is there, no
backslash is before it, and a word character or an opening brace is behind it. -/
def startsAt (text : List Char) (i : Nat) : Bool :=
  text[i]? == some '$' && (text.take i).getLast? != some '\\' && text[i + 1]?.any opensVariable

/-- The indices at which placeholders start, in order. -/
def starts (text : List Char) : List Nat := (List.range text.length).filter (startsAt text)

example : starts "\\$a$$b$ $\x7b".toList = [4, 8] := by decide

variable {before s rest after name : List Char} {c : Char}

theorem startsAt_length (before rest : List Char) :
    startsAt (before ++ rest) before.length =
      (rest.head? == some '$' && before.getLast? != some '\\' && rest[1]?.any opensVariable) := by
  have here : (before ++ rest)[before.length]? = rest.head? := by
    simp [List.getElem?_append_right, List.head?_eq_getElem?]
  have next : (before ++ rest)[before.length + 1]? = rest[1]? := by
    simp [List.getElem?_append_right]
  rw [startsAt, here, next, List.take_left]

/-- Whether a placeholder starts depends on the character before and the two behind. -/
theorem startsAt_length_iff : startsAt (before ++ rest) before.length = true ↔
    before.getLast? ≠ some '\\' ∧
      ∃ tail, rest = '$' :: tail ∧ tail.head?.any opensVariable = true := by
  rw [startsAt_length, Bool.and_eq_true, Bool.and_eq_true, beq_iff_eq, bne_iff_ne,
    List.head?_eq_some_iff]
  constructor
  · rintro ⟨⟨⟨tail, rfl⟩, unescaped⟩, opens⟩
    rw [List.getElem?_cons_succ, ← List.head?_eq_getElem?] at opens
    exact ⟨unescaped, tail, rfl, opens⟩
  · rintro ⟨unescaped, tail, rfl, opens⟩
    rw [List.getElem?_cons_succ, ← List.head?_eq_getElem?]
    exact ⟨⟨⟨tail, rfl⟩, unescaped⟩, opens⟩

theorem getLast?_ne_of_startsAt (starts : startsAt (before ++ rest) before.length = true) :
    before.getLast? ≠ some '\\' := (startsAt_length_iff.mp starts).1

/-- No placeholder starts within the stretch `s` of the text. -/
def Quiet (before s rest : List Char) : Prop :=
  ∀ i < s.length, startsAt (before ++ (s ++ rest)) (before.length + i) = false

theorem Quiet.nil : Quiet before [] rest := fun _ inside => absurd inside (Nat.not_lt_zero _)

/-- A stretch is quiet if nothing starts at its first character nor behind it. -/
theorem quiet_cons : Quiet before (c :: s) rest ↔
    startsAt (before ++ c :: (s ++ rest)) before.length = false ∧
      Quiet (before ++ [c]) s rest := by
  have shift (i : Nat) : (before ++ [c]).length + i = before.length + (i + 1) := by
    simp only [List.length_append, List.length_singleton]
    omega
  simp only [Quiet, List.length_cons, Nat.forall_lt_succ_left', List.cons_append, Nat.add_zero,
    shift, List.append_assoc, List.nil_append]

theorem Quiet.startsAt_eq (quiet : Quiet before s rest) (nonempty : s ≠ []) :
    startsAt (before ++ (s ++ rest)) before.length = false :=
  quiet 0 (List.length_pos_iff.mpr nonempty)

/-- Nothing starts without a dollar sign. -/
theorem quiet_of_notMem (plain : '$' ∉ s) : Quiet before s rest := by
  induction s generalizing before with
  | nil => exact .nil
  | cons c s ih =>
      obtain ⟨other, plain⟩ := List.ne_and_not_mem_of_not_mem_cons plain
      refine quiet_cons.mpr ⟨?_, ih plain⟩
      simp [startsAt_length, other.symm]

theorem Quiet.filter_eq (quiet : Quiet before s rest) :
    (List.range' before.length s.length).filter (startsAt (before ++ (s ++ rest))) = [] := by
  refine List.filter_eq_nil_iff.mpr fun i member => ?_
  obtain ⟨above, below⟩ := List.mem_range'_1.mp member
  have here := quiet (i - before.length) (by omega)
  rw [Nat.add_sub_cancel' above] at here
  exact Bool.not_eq_true _ ▸ here

/-- A stretch goes on where no placeholder starts. -/
theorem Quiet.length_le {s' rest' : List Char} (quiet : Quiet before s' rest')
    (stops : rest = [] ∨ startsAt (before ++ s ++ rest) (before ++ s).length = true)
    (same : s ++ rest = s' ++ rest') : s'.length ≤ s.length := by
  rcases stops with rfl | start
  · have lengths := congrArg List.length same
    simp only [List.append_nil, List.length_append] at lengths
    omega
  · refine Nat.le_of_not_lt fun inside => ?_
    have silent := quiet s.length inside
    rw [← same, ← List.append_assoc, ← List.length_append, start] at silent
    cases silent

/-! ## Placeholders -/

/-- A placeholder of the given name is written as `source`, with `rest` behind
it. -/
inductive Spelled : List Char → List Char → List Char → Prop where
  /-- A dollar sign and a name, which is as long as it can be. -/
  | bare {name rest : List Char} : name ≠ [] → (∀ c ∈ name, isWord c = true) →
      (∀ c ∈ rest.head?, isWord c = false) → Spelled name ('$' :: name) rest
  /-- A dollar sign and a name in braces, which may be empty. -/
  | braced {name rest : List Char} : (∀ c ∈ name, isWord c = true) →
      Spelled name ('$' :: '\x7b' :: (name ++ ['\x7d'])) rest

namespace Spelled

variable {source : List Char}

/-- A placeholder is a dollar sign with something behind it that opens it, and has no
other dollar sign. -/
theorem exists_cons (spelled : Spelled name source rest) :
    ∃ tail, source = '$' :: tail ∧ (tail ++ rest).head?.any opensVariable = true ∧
      '$' ∉ tail ∧ '\\' ∉ tail := by
  cases spelled with
  | bare nonempty word _ =>
      obtain ⟨c, cs, rfl⟩ := List.exists_cons_of_ne_nil nonempty
      refine ⟨_, rfl, ?_, fun member => ?_, fun member => ?_⟩
      · simp [opensVariable, word c (.head _)]
      · cases word _ member
      · cases word _ member
  | braced word =>
      have dollar : '$' ∉ name := fun member => nomatch word _ member
      have backslash : '\\' ∉ name := fun member => nomatch word _ member
      exact ⟨_, rfl, rfl, by simp [dollar], by simp [backslash]⟩

/-- What stands at a place is at most one placeholder. -/
theorem unique {name' source' rest' : List Char} (spelled : Spelled name source rest)
    (spelled' : Spelled name' source' rest') (same : source ++ rest = source' ++ rest') :
    name = name' ∧ source = source' := by
  have closes {rest : List Char} : ∀ c ∈ ('\x7d' :: rest).head?, isWord c = false :=
    fun _ same => Option.some.inj same ▸ rfl
  have first {c : Char} {cs : List Char} (word : ∀ x ∈ c :: cs, isWord x = true) :
      c ≠ '\x7b' := by
    rintro rfl
    cases word _ (.head _)
  cases spelled with
  | bare nonempty word stops =>
      obtain ⟨c, cs, rfl⟩ := List.exists_cons_of_ne_nil nonempty
      cases spelled' with
      | bare _ word' stops' =>
          obtain rfl := Lexeme.run_unique word stops word' stops' (List.cons.inj same).2
          exact ⟨rfl, rfl⟩
      | braced _ => exact absurd (List.cons.inj (List.cons.inj same).2).1 (first word)
  | braced word =>
      cases spelled' with
      | bare nonempty word' _ =>
          obtain ⟨c, cs, rfl⟩ := List.exists_cons_of_ne_nil nonempty
          exact absurd (List.cons.inj (List.cons.inj same).2).1.symm (first word')
      | braced word' =>
          -- A brace is no word character, so both names end at the first one.
          have inner : name ++ '\x7d' :: rest = name' ++ '\x7d' :: rest' := by simpa using same
          obtain rfl := Lexeme.run_unique word closes word' closes inner
          exact ⟨rfl, rfl⟩

theorem ne_nil (spelled : Spelled name source rest) : source ≠ [] := by
  obtain ⟨tail, rfl, _⟩ := spelled.exists_cons
  exact List.cons_ne_nil _ _

/-- No placeholder ends with a backslash. -/
theorem getLast?_ne (spelled : Spelled name source rest) :
    (before ++ source).getLast? ≠ some '\\' := by
  obtain ⟨tail, rfl, _, _, plain⟩ := spelled.exists_cons
  intro last
  rw [List.getLast?_append_cons] at last
  rcases List.mem_cons.mp (List.mem_of_getLast? last) with same | member
  · cases same
  · exact plain member

/-- An unescaped placeholder starts where it is spelled. -/
theorem startsAt_length (spelled : Spelled name source rest)
    (unescaped : before.getLast? ≠ some '\\') :
    startsAt (before ++ (source ++ rest)) before.length = true := by
  obtain ⟨tail, rfl, opens, _⟩ := spelled.exists_cons
  exact startsAt_length_iff.mpr ⟨unescaped, tail ++ rest, rfl, opens⟩

/-- No stretch of text is where a placeholder starts. -/
theorem not_quiet {s' rest' : List Char} (spelled : Spelled name source rest)
    (unescaped : before.getLast? ≠ some '\\') (nonempty : s' ≠ [])
    (same : source ++ rest = s' ++ rest') : ¬Quiet before s' rest' := by
  intro quiet
  have start := spelled.startsAt_length unescaped
  rw [same, quiet.startsAt_eq nonempty] at start
  cases start

/-- The dollar sign is the only place where a placeholder starts. -/
theorem filter_eq (spelled : Spelled name source rest)
    (unescaped : before.getLast? ≠ some '\\') :
    (List.range' before.length source.length).filter (startsAt (before ++ (source ++ rest))) =
      [before.length] := by
  have here := spelled.startsAt_length unescaped
  obtain ⟨tail, rfl, _, plain, _⟩ := spelled.exists_cons
  have quiet : Quiet (before ++ ['$']) tail rest := quiet_of_notMem plain
  have later := quiet.filter_eq
  rw [List.length_append, List.length_singleton, List.append_assoc] at later
  rw [List.length_cons, List.range'_succ, List.filter_cons_of_pos here]
  exact congrArg _ later

end Spelled

/-! ## Pieces -/

/-- A part of the text of a template. -/
inductive Piece where
  /-- Text, as it is written. -/
  | text (source : List Char)
  /-- A placeholder, as it is written, and the name of its variable. -/
  | placeholder (source : List Char) (name : String)

namespace Piece

/-- The piece as it is written. -/
def source : Piece → List Char
  | .text source | .placeholder source _ => source

/-- Whether the piece is text. -/
def isText : Piece → Bool
  | .text _ => true
  | .placeholder .. => false

/-- What the piece becomes. -/
def node (mode : EscapeMode) : Piece → Node
  | .text source => .text (String.ofList (mode.apply source))
  | .placeholder _ name => .placeholder name

end Piece

/-- The index at which each placeholder starts, if the pieces start at index
`i`. -/
def offsets : Nat → List Piece → List Nat
  | _, [] => []
  | i, .text source :: ps => offsets (i + source.length) ps
  | i, .placeholder source _ :: ps => i :: offsets (i + source.length) ps

/-- Behind the characters `before`, the text is cut into pieces up to `after`. -/
inductive Layout : List Char → List Char → List Piece → List Char → Prop where
  /-- Nothing is cut off. -/
  | nil (before after : List Char) : Layout before after [] after
  /-- A stretch of text goes on to the start of a placeholder, or to the end. -/
  | text {before s rest after : List Char} {ps : List Piece} :
      s ≠ [] → Quiet before s rest →
      (rest = [] ∨ startsAt (before ++ s ++ rest) (before ++ s).length = true) →
      Layout (before ++ s) rest ps after → Layout before (s ++ rest) (.text s :: ps) after
  /-- A placeholder starts. -/
  | placeholder {before s rest after name : List Char} {ps : List Piece} :
      before.getLast? ≠ some '\\' → Spelled name s rest →
      Layout (before ++ s) rest ps after →
      Layout before (s ++ rest) (.placeholder s (String.ofList name) :: ps) after

namespace Layout

variable {text : List Char} {ps : List Piece}

/-- The pieces cover what is cut. -/
theorem whole (layout : Layout before text ps after) :
    text = ps.flatMap Piece.source ++ after := by
  induction layout with
  | nil => rfl
  | text _ _ _ _ ih | placeholder _ _ _ ih =>
      rw [List.flatMap_cons, List.append_assoc, ← ih]
      rfl

/-- The placeholders start where the text says. -/
theorem offsets_eq (layout : Layout before text ps after) :
    offsets before.length ps = (List.range' before.length (ps.flatMap Piece.source).length).filter
      (startsAt (before ++ text)) := by
  induction layout with
  | nil => rfl
  | text _ quiet _ layout ih =>
      rw [offsets, List.flatMap_cons, List.length_append, ← List.range'_append_1,
        List.filter_append, Piece.source, quiet.filter_eq]
      simpa using ih
  | placeholder unescaped spelled _ ih =>
      rw [offsets, List.flatMap_cons, List.length_append, ← List.range'_append_1,
        List.filter_append, Piece.source, spelled.filter_eq unescaped]
      simpa using ih

/-- Where a placeholder starts, or nothing is left, no text is cut off. -/
theorem isText_head (layout : Layout before text ps after)
    (stops : text = [] ∨ startsAt (before ++ text) before.length = true) :
    ∀ p ∈ ps.head?, p.isText = false := by
  cases layout with
  | nil => exact fun _ absent => nomatch absent
  | text nonempty quiet _ _ =>
      rcases stops with empty | start
      · exact absurd (List.append_eq_nil_iff.mp empty).1 nonempty
      · cases (quiet.startsAt_eq nonempty).symm.trans start
  | placeholder => exact fun _ same => Option.some.inj same ▸ rfl

/-- No stretch of text is next to another. -/
theorem isChain (layout : Layout before text ps after) :
    ps.IsChain fun p q => p.isText = true → q.isText = false := by
  induction layout with
  | nil => exact .nil
  | text _ _ stops layout ih =>
      exact List.isChain_cons.mpr ⟨fun q next _ => layout.isText_head stops q next, ih⟩
  | placeholder _ _ _ ih => exact List.isChain_cons.mpr ⟨fun _ _ text => (nomatch text), ih⟩

theorem ne_nil_of_text (layout : Layout before text ps after) {source : List Char}
    (member : .text source ∈ ps) : source ≠ [] := by
  induction layout with
  | nil => cases member
  | text nonempty _ _ _ ih =>
      cases member with
      | head => exact nonempty
      | tail _ member => exact ih member
  | placeholder _ _ _ ih =>
      cases member with
      | tail _ member => exact ih member

/-- A placeholder is written as one in front of the pieces behind it. -/
theorem spelled (layout : Layout before text ps after) {u v : List Piece} {source : List Char}
    {name : String} (cut : ps = u ++ .placeholder source name :: v) :
    Spelled name.toList source (v.flatMap Piece.source ++ after) := by
  induction layout generalizing u with
  | nil => cases u <;> cases cut
  | text _ _ _ _ ih =>
      cases u with
      | nil => cases cut
      | cons p u => exact ih (List.cons.inj cut).2
  | placeholder _ spelled layout ih =>
      cases u with
      | nil =>
          cases cut
          rwa [← layout.whole, String.toList_ofList]
      | cons p u => exact ih (List.cons.inj cut).2

/-- A layout of the whole text goes on where another one ends. -/
theorem exists_append {qs : List Piece} (layout : Layout before text ps after)
    (whole : Layout before text qs []) :
    ∃ rs, qs = ps ++ rs ∧ Layout (before ++ ps.flatMap Piece.source) after rs [] := by
  induction layout generalizing qs with
  | nil => exact ⟨qs, rfl, by simpa using whole⟩
  | @text before s rest after ps nonempty quiet stops layout ih =>
      generalize same : s ++ rest = text at whole
      cases whole with
      | nil => exact absurd (List.append_eq_nil_iff.mp same).1 nonempty
      | @text _ s' rest' _ _ _ quiet' stops' layout' =>
          -- Both texts go up to the next start, which is in neither of them.
          have lengths : s.length = s'.length :=
            Nat.le_antisymm (quiet.length_le stops' same.symm) (quiet'.length_le stops same)
          obtain ⟨rfl, rfl⟩ := List.append_inj same lengths
          obtain ⟨rs, rfl, layout⟩ := ih layout'
          exact ⟨rs, rfl, by simpa [Piece.source] using layout⟩
      | placeholder unescaped spelled _ =>
          exact absurd quiet (spelled.not_quiet unescaped nonempty same.symm)
  | @placeholder before s rest after name ps unescaped spelled layout ih =>
      generalize same : s ++ rest = text at whole
      cases whole with
      | nil => exact absurd (List.append_eq_nil_iff.mp same).1 spelled.ne_nil
      | text nonempty quiet _ _ =>
          exact absurd quiet (spelled.not_quiet unescaped nonempty same)
      | placeholder _ spelled' layout' =>
          obtain ⟨rfl, rfl⟩ := spelled.unique spelled' same
          obtain rfl := List.append_cancel_left same
          obtain ⟨rs, rfl, layout⟩ := ih layout'
          exact ⟨rs, rfl, by simpa [Piece.source] using layout⟩

/-- A text has one layout, since where placeholders start is a matter of the text. -/
theorem unique {qs : List Piece} (layout : Layout before text ps [])
    (layout' : Layout before text qs []) : ps = qs := by
  obtain ⟨rs, rfl, _⟩ := layout.exists_append layout'
  obtain ⟨rs', same, _⟩ := layout'.exists_append layout
  simp only [List.append_assoc, List.self_eq_append_right, List.append_eq_nil_iff] at same
  rw [same.1, List.append_nil]

end Layout

/-! ## Whole texts -/

/-- The pieces can follow each other. -/
structure Joined (ps : List Piece) : Prop where
  /-- A placeholder ends where its name or its brace does. -/
  spelled : ∀ {u v : List Piece} {source : List Char} {name : String},
    ps = u ++ .placeholder source name :: v → Spelled name.toList source (v.flatMap Piece.source)
  /-- No stretch of text is empty. -/
  nonempty : ∀ {source : List Char}, .text source ∈ ps → source ≠ []
  /-- No stretch is next to another, so each is as long as it can be. -/
  apart : ps.IsChain fun p q => p.isText = true → q.isText = false

/-- The pieces are the placeholders of the text and the stretches between them. -/
structure Cut (text : List Char) (ps : List Piece) : Prop extends Joined ps where
  /-- The pieces make up the text. -/
  whole : ps.flatMap Piece.source = text
  /-- The placeholders are where the text says, in order. -/
  offsets_eq : offsets 0 ps = starts text

theorem Joined.tail {p : Piece} {ps : List Piece} (joined : Joined (p :: ps)) : Joined ps where
  spelled := fun {u _ _ _} same => joined.spelled (u := p :: u) (congrArg (p :: ·) same)
  nonempty := fun member => joined.nonempty (.tail _ member)
  apart := (List.isChain_cons.mp joined.apart).2

/-- The pieces of a whole text are joined as they stand. -/
theorem Layout.joined {before text : List Char} {ps : List Piece}
    (layout : Layout before text ps []) : Joined ps where
  spelled := fun same => by simpa using layout.spelled same
  nonempty := layout.ne_nil_of_text
  apart := layout.isChain

theorem le_of_mem_offsets {ps : List Piece} {i j : Nat} (member : j ∈ offsets i ps) : i ≤ j := by
  induction ps generalizing i with
  | nil => cases member
  | cons p ps ih =>
      cases p with
      | text source => exact Nat.le_trans (Nat.le_add_right _ _) (ih member)
      | placeholder source name =>
          rcases List.mem_cons.mp member with rfl | member
          · exact Nat.le_refl _
          · exact Nat.le_trans (Nat.le_add_right _ _) (ih member)

theorem startsAt_of_offsets_eq {ps : List Piece} {source text : List Char} {name : String} {i : Nat}
    {indices : List Nat} (same : offsets i (.placeholder source name :: ps) =
      indices.filter (startsAt text)) : startsAt text i = true := by
  have member : i ∈ offsets i (.placeholder source name :: ps) := List.mem_cons_self
  rw [same] at member
  exact (List.mem_filter.mp member).2

/-- Pieces that can follow each other are a layout if their placeholders start
where the text says. -/
theorem Joined.layout : ∀ {ps : List Piece} {before : List Char}, Joined ps →
    offsets before.length ps =
      (List.range' before.length (ps.flatMap Piece.source).length).filter
        (startsAt (before ++ ps.flatMap Piece.source)) →
    Layout before (ps.flatMap Piece.source) ps []
  | [], _, _, _ => .nil _ _
  | .text s :: ps, before, joined, offsets_eq => by
      rw [offsets, List.flatMap_cons, List.length_append, ← List.range'_append_1,
        List.filter_append, Piece.source] at offsets_eq
      -- A start in the text would be an offset, and all offsets are behind it.
      have quiet : Quiet before s (ps.flatMap Piece.source) := by
        intro i inside
        rw [Bool.eq_false_iff]
        intro start
        have member : before.length + i ∈ offsets (before.length + s.length) ps := by
          rw [offsets_eq]
          have range := List.mem_range'_1.mpr
            ⟨Nat.le_add_right before.length i, Nat.add_lt_add_left inside before.length⟩
          exact List.mem_append_left _ (List.mem_filter.mpr ⟨range, start⟩)
        exact absurd (Nat.le_of_add_le_add_left (le_of_mem_offsets member)) (Nat.not_le.mpr inside)
      rw [quiet.filter_eq, List.nil_append, ← List.length_append, ← List.append_assoc] at offsets_eq
      refine .text (joined.nonempty (.head _)) quiet ?_ (joined.tail.layout offsets_eq)
      cases ps with
      | nil => exact .inl rfl
      | cons q ps =>
          cases q with
          | text => cases (List.isChain_cons.mp joined.apart).1 _ rfl rfl
          | placeholder => exact .inr (startsAt_of_offsets_eq offsets_eq)
  | .placeholder s name :: ps, before, joined, offsets_eq => by
      have unescaped := getLast?_ne_of_startsAt (startsAt_of_offsets_eq offsets_eq)
      have spelled := joined.spelled (u := []) rfl
      rw [offsets, List.flatMap_cons, List.length_append, ← List.range'_append_1,
        List.filter_append, Piece.source, spelled.filter_eq unescaped,
        List.singleton_append] at offsets_eq
      have later := (List.cons.inj offsets_eq).2
      rw [← List.length_append, ← List.append_assoc] at later
      have layout := Layout.placeholder unescaped spelled (joined.tail.layout later)
      rwa [String.ofList_toList] at layout

/-- A text has one layout, and that cuts it where the text says. -/
theorem cut_iff_layout {text : List Char} {ps : List Piece} :
    Cut text ps ↔ Layout [] text ps [] := by
  constructor
  · intro cut
    have offsets_eq := cut.offsets_eq
    rw [starts, List.range_eq_range', ← cut.whole] at offsets_eq
    rw [← cut.whole]
    exact cut.layout offsets_eq
  · intro layout
    have whole : ps.flatMap Piece.source = text := by rw [layout.whole, List.append_nil]
    have offsets_eq := layout.offsets_eq
    rw [whole, List.length_nil, List.nil_append, ← List.range_eq_range'] at offsets_eq
    exact ⟨layout.joined, whole, offsets_eq⟩

end MetricLabels.Template
