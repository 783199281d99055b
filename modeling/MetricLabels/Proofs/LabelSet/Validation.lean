import MetricLabels.Proofs.Selector.RoundTrip
import MetricLabels.Proofs.Token.Tiling

/-!
# Names, and the validation of what is read

A text can stand on its own as a name, fits the pattern of label names, and is
read as a name, or is none of the three (`accepts_iff_isNameToken`).  That an
engine finds the texts that fit the pattern is an assumption on the engine
(`LawfulPatternEngine`).

So the names that a label set is read with are valid.  Validation of such a set
can find an empty value, and nothing else (`validate_of_accepts`).  The main
statement is `names_agree_and_parsed_validates`.
-/

namespace MetricLabels

/-! ## Names as tokens -/

/-- The first token of the text is a name, and its text is the whole text. -/
def IsNameToken (name : String) : Prop :=
  ∃ token, (tokenize name).head? = some token ∧ token.kind = .ident ∧ token.text = name

/-- A name that is accepted is scanned as one token. -/
theorem isNameToken_of_accepts {name : String}
    (accepted : NamePattern.labelName.accepts name = true) : IsNameToken name := by
  obtain ⟨c, cs, cut, notNumeral, word⟩ := accepts_iff.mp accepted
  obtain ⟨first, others⟩ := List.forall_mem_cons.mp word
  have source : Token.Source ([] ++ []) (c :: cs) []
      ⟨.ident, .behind [], String.ofList (c :: cs)⟩ :=
    .ident ((startsName_iff c).mpr ⟨first, notNumeral⟩) others (by simp)
  have tiling : Tiling [] (c :: cs) [⟨.ident, .behind [], String.ofList (c :: cs)⟩,
      ⟨.eof, .behind (c :: cs), ""⟩] := by
    simpa using Tiling.token .nil source (.blank .nil)
  rw [← cut, String.ofList_toList] at tiling
  have tokens := Tokenizer.drain_of_tiling tiling (t := .ofString name) rfl rfl rfl rfl
  exact ⟨_, by rw [tokenize, tokens, List.head?_cons], rfl, rfl⟩

/-- A text that is scanned as a name from end to end is accepted. -/
theorem accepts_of_isNameToken {name : String} (isName : IsNameToken name) :
    NamePattern.labelName.accepts name = true := by
  obtain ⟨token, first, named, whole⟩ := isName
  have tiling := tiling_tokenize name
  -- The text of a name is its whole source, so nothing stands around that.
  generalize tokenize name = tokens, cut : name.toList = text at first tiling
  cases tiling with
  | blank | openQuote =>
      obtain rfl := Option.some.inj first
      cases named
  | token _ source _ =>
      obtain rfl := Option.some.inj first
      cases source with
      | @ident c cs _ starts others _ =>
          obtain ⟨word, notNumeral⟩ := (startsName_iff c).mp starts
          have same : name.toList = c :: cs := by rw [← whole, String.toList_ofList]
          exact accepts_iff.mpr ⟨c, cs, same, notNumeral, List.forall_mem_cons.mpr ⟨word, others⟩⟩
      | sign kind sign =>
          obtain rfl : kind = .ident := named
          cases sign
      | _ => cases named

/-- The names are the texts that are read as one. -/
theorem accepts_iff_isNameToken (name : String) :
    NamePattern.labelName.accepts name = true ↔ IsNameToken name :=
  ⟨isNameToken_of_accepts, accepts_of_isNameToken⟩

/-! ## The first label that fails -/

section

variable {ε α : Type} {f : α → Except ε Unit} {xs : List α}

theorem forM_cons_eq (f : α → Except ε Unit) (x : α) (xs : List α) :
    (x :: xs).forM f = match f x with
      | .ok _ => xs.forM f
      | .error e => .error e := by
  show (f x >>= fun _ => xs.forM f) = _
  cases f x <;> rfl

/-- A traversal succeeds if no element refuses. -/
theorem forM_eq_ok_iff : xs.forM f = .ok () ↔ ∀ x ∈ xs, f x = .ok () := by
  induction xs with
  | nil => exact ⟨fun _ _ absent => absurd absent List.not_mem_nil, fun _ => rfl⟩
  | cons x xs ih =>
      rw [forM_cons_eq, List.forall_mem_cons, ← ih]
      cases f x with
      | ok => simp
      | error e => simp

/-- It fails with the error of the first element that refuses. -/
theorem forM_eq_error_iff {e : ε} : xs.forM f = .error e ↔
    ∃ before x after, xs = before ++ x :: after ∧ (∀ y ∈ before, f y = .ok ()) ∧
      f x = .error e := by
  induction xs with
  | nil =>
      constructor
      · intro failed
        cases failed
      · rintro ⟨before, x, after, cut, _⟩
        cases before <;> cases cut
  | cons x xs ih =>
      rw [forM_cons_eq]
      constructor
      · intro failed
        -- The first element refuses, or another one does behind it.
        cases first : f x with
        | error e' =>
            rw [first] at failed
            cases failed
            exact ⟨[], x, xs, rfl, by simp, first⟩
        | ok =>
            rw [first] at failed
            obtain ⟨before, y, after, rfl, passed, last⟩ := ih.mp failed
            exact ⟨x :: before, y, after, rfl, List.forall_mem_cons.mpr ⟨first, passed⟩, last⟩
      · rintro ⟨before, y, after, cut, passed, last⟩
        cases before with
        | nil =>
            cases cut
            rw [last]
        | cons z before =>
            cases cut
            obtain ⟨first, passed⟩ := List.forall_mem_cons.mp passed
            rw [first]
            exact ih.mpr ⟨before, y, after, rfl, passed, last⟩

end

/-! ## Validation -/

/-- What is relied on of an engine. -/
class LawfulPatternEngine [PatternEngine] : Prop where
  /-- The anchors bind the pattern of label names to the whole text: its first
  character and all others have to be in their classes.  A line feed at the end is a
  character like any other. -/
  isMatch_labelName : ∀ text : String,
    PatternEngine.isMatch NamePattern.labelName.source text = NamePattern.labelName.accepts text

open LawfulPatternEngine

instance : LawfulPatternEngine where
  isMatch_labelName _ := rfl

section

variable [PatternEngine] [LawfulPatternEngine]

/-- Of a label with a valid name, the value is all that can fail. -/
theorem Label.validate_of_accepts {l : Label}
    (accepted : NamePattern.labelName.accepts l.name = true) :
    l.validate = if l.value = "" then .error (.emptyValue l.name) else .ok () := by
  have named : l.name ≠ "" := by
    intro empty
    rw [empty] at accepted
    cases accepted
  rw [validate, if_neg named, isMatch_labelName, accepted]
  rfl

/-- A label with an acceptable name is valid unless its value is empty. -/
theorem Label.validate_eq_ok_iff {l : Label}
    (accepted : NamePattern.labelName.accepts l.name = true) :
    l.validate = .ok () ↔ l.value ≠ "" := by
  rw [validate_of_accepts accepted]
  by_cases empty : l.value = "" <;> simp [empty]

/-- Then the error names the label. -/
theorem Label.validate_eq_error_iff {l : Label} {e : LabelError}
    (accepted : NamePattern.labelName.accepts l.name = true) :
    l.validate = .error e ↔ l.value = "" ∧ e = .emptyValue l.name := by
  rw [validate_of_accepts accepted]
  by_cases empty : l.value = "" <;> simp [empty, eq_comm]

/-- Of a set with valid names, the first empty value is what fails. -/
theorem LabelSet.validate_of_accepts {s : LabelSet}
    (accepted : ∀ l ∈ s.labels, NamePattern.labelName.accepts l.name = true) :
    (s.validate = .ok () ↔ ∀ l ∈ s.labels, l.value ≠ "") ∧
      ∀ e, s.validate = .error e ↔ ∃ before l after, s.labels = before ++ l :: after ∧
        (∀ earlier ∈ before, earlier.value ≠ "") ∧ l.value = "" ∧ e = .emptyValue l.name := by
  constructor
  · rw [validate, forM_eq_ok_iff]
    exact forall₂_congr fun l member => Label.validate_eq_ok_iff (accepted l member)
  · intro e
    rw [validate, forM_eq_error_iff]
    refine exists_congr fun before => exists_congr fun l => exists_congr fun after => ?_
    refine and_congr_right fun cut => and_congr ?_ ?_
    · refine forall₂_congr fun earlier member => Label.validate_eq_ok_iff (accepted _ ?_)
      rw [cut]
      exact List.mem_append_left _ member
    · refine Label.validate_eq_error_iff (accepted l ?_)
      rw [cut]
      exact List.mem_append_right _ (.head _)

/-- The three ways to recognize a name agree on every text.  A label set that is
read from a text is valid if it has no empty value, and otherwise the first empty
value is what validation reports. -/
theorem names_agree_and_parsed_validates :
    (∀ name, isBareName name = PatternEngine.isMatch NamePattern.labelName.source name ∧
      (PatternEngine.isMatch NamePattern.labelName.source name = true ↔ IsNameToken name)) ∧
    ∀ text s, LabelSet.parse text = .ok s →
      (s.validate = .ok () ↔ ∀ l ∈ s.labels, l.value ≠ "") ∧
      ∀ e, s.validate = .error e ↔ ∃ before l after, s.labels = before ++ l :: after ∧
        (∀ earlier ∈ before, earlier.value ≠ "") ∧ l.value = "" ∧ e = .emptyValue l.name := by
  refine ⟨fun name => ?_, fun text s parsed => ?_⟩
  · rw [isMatch_labelName]
    exact ⟨isBareName_eq_accepts name, accepts_iff_isNameToken name⟩
  · refine LabelSet.validate_of_accepts fun l member => ?_
    exact (Label.writable_condition_iff.mp (LabelSet.writable_of_labelSet_parse parsed l member)).1

end

/-- A value that is replaced keeps its slot, so an empty value that was read last
may be the first. -/
theorem parsed_validates_to_first_slot :
    ∃ s, LabelSet.parse "\x7ba=\"1\",b=\"\",a=\"\"\x7d" = .ok s ∧
      s.validate = .error (.emptyValue "a") := by
  have selector : Selector.parse .labels "\x7ba=\"1\",b=\"\",a=\"\"\x7d" =
      .ok [⟨.equal, "a", "1"⟩, ⟨.equal, "b", ""⟩, ⟨.equal, "a", ""⟩] := by decide +kernel
  have parsed := Selector.labelSet_parse_eq_ok_iff.mpr ⟨_, selector, rfl⟩
  obtain ⟨_, reports⟩ := names_agree_and_parsed_validates.2 _ _ parsed
  exact ⟨_, parsed, (reports _).mpr ⟨[], ⟨"a", ""⟩, [⟨"b", ""⟩], rfl, by simp, rfl, rfl⟩⟩

end MetricLabels
