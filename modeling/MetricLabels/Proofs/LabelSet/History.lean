import Mathlib.Order.Bounds.Defs
import MetricLabels.Codec
import MetricLabels.Proofs.LabelSet.Edits
import MetricLabels.Selector.Parse

/-!
# A label set remembers its history

A set that was made by a list of insertions and removals, oldest first, is told
by that list alone.  The value of a name is the one of the latest edit of the
name (`Gives`).  The slots are ordered by the time at which their names came
into the set, where an overwritten value does not count and an insertion behind
a removal does (`Enters`, `ComesBefore`).

The main statement is `run_reflects_history`.  It holds however the set was
made at first (`Made`), since each way of making one is a run of insertions.
-/

namespace MetricLabels

/-! ## Histories -/

/-- The latest edit of the name is an insertion of the value. -/
def Gives (history : List Edit) (name value : String) : Prop :=
  ∃ before after, history = before ++ .insert name value :: after ∧
    ∀ e ∈ after, e.name ≠ name

/-- The edit number `i`, counted from zero, inserts a name that has no value at
that time. -/
def Enters (history : List Edit) (name : String) (i : Nat) : Prop :=
  (∃ value, history[i]? = some (.insert name value)) ∧
    ∀ value, ¬Gives (history.take i) name value

/-- The edit number `i` is the latest with which the name came into the set. -/
def EntersLast (history : List Edit) (name : String) (i : Nat) : Prop :=
  IsGreatest {i | Enters history name i} i

/-- The latest time at which the first name came into the set is before that of
the second. -/
def ComesBefore (history : List Edit) (first second : String) : Prop :=
  ∃ i j, EntersLast history first i ∧ EntersLast history second j ∧ i < j

variable {history : List Edit} {e : Edit} {name value : String} {i : Nat}

theorem gives_nil (name value : String) : ¬Gives [] name value := by
  rintro ⟨before, after, cut, _⟩
  exact absurd cut (by simp)

/-- An edit decides the value of its name, and of no other. -/
theorem gives_snoc_iff :
    Gives (history ++ [e]) name value ↔
      e = .insert name value ∨ e.name ≠ name ∧ Gives history name value := by
  constructor
  · rintro ⟨before, after, cut, later⟩
    rcases List.eq_nil_or_concat after with rfl | ⟨after, last, rfl⟩
    · exact .inl (List.singleton_inj.mp (List.append_inj_right' cut rfl))
    · rw [List.concat_eq_append] at cut later
      rw [← List.cons_append, ← List.append_assoc] at cut
      obtain rfl := List.singleton_inj.mp (List.append_inj_right' cut rfl)
      exact .inr ⟨later e (by simp), before, after, List.append_inj_left' cut rfl,
        fun x member => later x (List.mem_append_left _ member)⟩
  · rintro (rfl | ⟨other, before, after, rfl, later⟩)
    · exact ⟨history, [], rfl, by simp⟩
    · refine ⟨before, after ++ [e], by simp, fun x member => ?_⟩
      rcases List.mem_append.mp member with member | member
      · exact later x member
      · exact List.mem_singleton.mp member ▸ other

/-- A name comes in with one of the edits. -/
theorem Enters.lt_length (enters : Enters history name i) : i < history.length := by
  obtain ⟨⟨value, found⟩, _⟩ := enters
  exact (List.getElem?_eq_some_iff.mp found).1

/-- One more edit changes nothing about the times before it. -/
theorem enters_snoc_iff :
    Enters (history ++ [e]) name i ↔
      Enters history name i ∨
        i = history.length ∧ (∃ value, e = .insert name value) ∧
          ∀ value, ¬Gives history name value := by
  -- The times before are those of the history, the present is that of the edit, and there is
  -- nothing later.
  rcases Nat.lt_trichotomy i history.length with past | rfl | future
  · have times : Enters (history ++ [e]) name i ↔ Enters history name i := by
      rw [Enters, Enters, List.getElem?_append_left past,
        List.take_append_of_le_length (Nat.le_of_lt past)]
    rw [times]
    exact ⟨.inl, fun enters => enters.resolve_right fun now => Nat.ne_of_lt past now.1⟩
  · have now : Enters (history ++ [e]) name history.length ↔
        (∃ value, e = .insert name value) ∧ ∀ value, ¬Gives history name value := by
      rw [Enters, List.getElem?_concat_length, List.take_left]
      simp only [Option.some.injEq]
    rw [now]
    refine ⟨fun enters => .inr ⟨rfl, enters⟩, ?_⟩
    rintro (enters | ⟨_, enters⟩)
    · exact absurd enters.lt_length (Nat.lt_irrefl _)
    · exact enters
  · constructor
    · intro enters
      have := enters.lt_length
      rw [List.length_append, List.length_singleton] at this
      omega
    · rintro (enters | ⟨rfl, _⟩)
      · exact absurd enters.lt_length (Nat.lt_asymm future)
      · exact absurd future (Nat.lt_irrefl _)

/-- A name that is in the set does not come into it. -/
theorem EntersLast.snoc (last : EntersLast history name i) (present : ∃ v, Gives history name v) :
    EntersLast (history ++ [e]) name i := by
  obtain ⟨v, gives⟩ := present
  refine ⟨enters_snoc_iff.mpr (.inl last.1), fun j enters => ?_⟩
  rcases enters_snoc_iff.mp enters with enters | ⟨_, _, absent⟩
  · exact last.2 enters
  · exact absurd gives (absent v)

/-- A name that is not in the set comes into it with its insertion. -/
theorem entersLast_insert (value : String) (absent : ∀ v, ¬Gives history name v) :
    EntersLast (history ++ [.insert name value]) name history.length := by
  refine ⟨enters_snoc_iff.mpr (.inr ⟨rfl, ⟨value, rfl⟩, absent⟩), fun j enters => ?_⟩
  rcases enters_snoc_iff.mp enters with enters | ⟨rfl, _⟩
  · exact Nat.le_of_lt enters.lt_length
  · exact Nat.le_refl _

/-! ## Sets and their histories -/

namespace LabelSet

/-- What the history of a set says about it. -/
structure Reflects (history : List Edit) (s : LabelSet) : Prop where
  /-- A name has the value of its latest insertion, unless it was removed
  later. -/
  get?_iff : ∀ name value, s.get? name = some value ↔ Gives history name value
  /-- The names of the set are those with such a value. -/
  mem_iff : ∀ name, name ∈ s.labels.map Label.name ↔ ∃ value, Gives history name value
  /-- Each of them came into the set at some time. -/
  entered : ∀ name ∈ s.labels.map Label.name, ∃ i, EntersLast history name i
  /-- They stand in the order in which they came into it. -/
  ordered : (s.labels.map Label.name).Pairwise (ComesBefore history)
  /-- No name occurs twice. -/
  nodup : (s.labels.map Label.name).Nodup

/-- The empty set has no history. -/
theorem reflects_nil : Reflects [] ∅ where
  get?_iff name value :=
    iff_of_false (fun found => Option.some_ne_none value found.symm) (gives_nil name value)
  mem_iff name := iff_of_false List.not_mem_nil fun ⟨value, gives⟩ => gives_nil name value gives
  entered _ member := absurd member List.not_mem_nil
  ordered := .nil
  nodup := .nil

/-- An edit keeps the slots of all names, but for a removed one, and adds one at
the end for a name that was not there. -/
theorem names_apply (e : Edit) (s : LabelSet) :
    ((e.apply s).2.labels.map Label.name).Sublist (s.labels.map Label.name) ∨
      ∃ name value, e = .insert name value ∧ name ∉ s.labels.map Label.name ∧
        (e.apply s).2.labels.map Label.name = s.labels.map Label.name ++ [name] := by
  cases e with
  | insert name value =>
      have names := s.names_insert name value
      by_cases present : name ∈ s.labels.map Label.name
      · rw [if_pos present] at names
        exact .inl (names ▸ List.Sublist.refl _)
      · rw [if_neg present] at names
        exact .inr ⟨name, value, rfl, present, names⟩
  | remove name =>
      have kept : (s.erase name).labels.Sublist s.labels := by
        rw [labels_erase]
        exact List.filter_sublist
      exact .inl (kept.map _)

namespace Reflects

variable {s : LabelSet}

/-- An edit does not change the order of two names that are in the set. -/
theorem comesBefore_snoc {first second : String} (told : Reflects history s)
    (before : ComesBefore history first second) (here : first ∈ s.labels.map Label.name)
    (there : second ∈ s.labels.map Label.name) : ComesBefore (history ++ [e]) first second := by
  obtain ⟨i, j, last, last', less⟩ := before
  exact ⟨i, j, last.snoc ((told.mem_iff first).mp here),
    last'.snoc ((told.mem_iff second).mp there), less⟩

/-- What holds of a set holds behind one more edit. -/
theorem apply (told : Reflects history s) (e : Edit) :
    Reflects (history ++ [e]) (e.apply s).2 := by
  have value_iff : ∀ name value, (e.apply s).2.get? name = some value ↔
      Gives (history ++ [e]) name value := by
    intro name value
    rw [Edit.get?_apply_eq_some_iff, gives_snoc_iff, told.get?_iff]
  have entered : ∀ name ∈ s.labels.map Label.name, ∃ i, EntersLast (history ++ [e]) name i := by
    intro name member
    obtain ⟨i, last⟩ := told.entered name member
    exact ⟨i, last.snoc ((told.mem_iff name).mp member)⟩
  have ordered : (s.labels.map Label.name).Pairwise (ComesBefore (history ++ [e])) :=
    told.ordered.imp_of_mem fun here there before => told.comesBefore_snoc before here there
  have slots : (∀ name ∈ (e.apply s).2.labels.map Label.name,
      ∃ i, EntersLast (history ++ [e]) name i) ∧
      ((e.apply s).2.labels.map Label.name).Pairwise (ComesBefore (history ++ [e])) := by
    rcases names_apply e s with kept | ⟨name, value, rfl, fresh, names⟩
    · exact ⟨fun name member => entered name (kept.subset member), ordered.sublist kept⟩
    · -- The time of the new name is the present, and all others are past.
      have now := entersLast_insert value fun v gives =>
        fresh ((told.mem_iff name).mpr ⟨v, gives⟩)
      rw [names]
      constructor
      · intro other member
        rcases List.mem_append.mp member with member | member
        · exact entered other member
        · rw [List.mem_singleton.mp member]
          exact ⟨_, now⟩
      · refine List.pairwise_append.mpr
          ⟨ordered, List.pairwise_singleton _ _, fun other member new isNew => ?_⟩
        rw [List.mem_singleton.mp isNew]
        obtain ⟨i, last⟩ := told.entered other member
        exact ⟨i, _, last.snoc ((told.mem_iff other).mp member), now, last.1.lt_length⟩
  refine ⟨value_iff, fun name => ?_, slots.1, slots.2, (e.apply s).2.nodup⟩
  rw [mem_names_iff]
  simp only [value_iff]

end Reflects

/-- The set behind some edits, made one after the other. -/
def run (s : LabelSet) (edits : List Edit) : LabelSet :=
  edits.foldl (fun s e => (e.apply s).2) s

/-- What holds of a set holds behind any edits, by induction on them. -/
theorem Reflects.run {s : LabelSet} (told : Reflects history s) (edits : List Edit) :
    Reflects (history ++ edits) (s.run edits) := by
  induction edits generalizing history s with
  | nil => rwa [List.append_nil]
  | cons e edits ih =>
      have rest := ih (told.apply e)
      rwa [List.append_assoc] at rest

/-! ## How sets are made -/

/-- The insertions of the given names and values. -/
def insertions (pairs : List (String × String)) : List Edit :=
  pairs.map fun (name, value) => .insert name value

/-- The ways to make a set, and the names and values that are given for it.  A
name may be given more than once. -/
inductive Made [Json.Library] : List (String × String) → LabelSet → Prop where
  /-- Nothing is given for the empty set. -/
  | empty : Made [] ∅
  /-- A list of names and values. -/
  | ofList (pairs : List (String × String)) : Made pairs (ofList pairs)
  /-- The conditions of a text. -/
  | parse {text : String} {cs : List Condition} {s : LabelSet} :
      Selector.parse .labels text = .ok cs → LabelSet.parse text = .ok s →
      Made (cs.map fun c => (c.name, c.value)) s
  /-- The entries of an object, as a JSON library delivers them. -/
  | ofJson {v : Json} {pairs : List (String × String)} {s : LabelSet} :
      Json.Library.entries? v = some pairs → ofJson? v = some s → Made pairs s

variable {pairs : List (String × String)} {s : LabelSet}

/-- Every way of making a set inserts what is given, from left to right. -/
theorem Made.eq_ofList [Json.Library] (made : Made pairs s) : s = LabelSet.ofList pairs := by
  cases made with
  | empty => rfl
  | ofList => rfl
  | parse conditions parsed =>
      rw [LabelSet.parse, conditions] at parsed
      cases parsed
      rfl
  | ofJson entries decoded =>
      rw [ofJson?, entries] at decoded
      cases decoded
      rfl

/-- A list of names and values is a run of insertions. -/
theorem ofList_eq_run (pairs : List (String × String)) :
    LabelSet.ofList pairs = run ∅ (insertions pairs) := by
  rw [LabelSet.ofList, run, insertions, List.foldl_map]
  rfl

/-- So a set that is made has the insertions as its history. -/
theorem Made.reflects [Json.Library] (made : Made pairs s) : Reflects (insertions pairs) s := by
  rw [made.eq_ofList, ofList_eq_run]
  exact reflects_nil.run _

/-- However a set is made and edited, its values, its names and their order are
those of its history.  The next edit gives the value that its name has, and
leaves the values and the order of the other labels alone. -/
theorem run_reflects_history [Json.Library] (made : Made pairs s) (edits : List Edit) :
    Reflects (insertions pairs ++ edits) (s.run edits) ∧
      ∀ e : Edit, (e.apply (s.run edits)).1 = (s.run edits).get? e.name ∧
        (∀ name, name ≠ e.name →
          (e.apply (s.run edits)).2.get? name = (s.run edits).get? name) ∧
        (e.apply (s.run edits)).2.labels.filter (·.name != e.name) =
          (s.run edits).labels.filter (·.name != e.name) :=
  ⟨made.reflects.run edits, fun e =>
    ⟨e.apply_fst _, fun _ other => Edit.get?_apply_of_ne _ other, e.filter_apply _⟩⟩

/-- A value that is given twice stays in its slot, and a name that is removed and
inserted again goes to the end. -/
theorem run_reflects_second_insertion :
    Made [("a", "1"), ("b", "2"), ("a", "3")] (.ofList [("a", "1"), ("b", "2"), ("a", "3")]) ∧
      ∃ s, s = (LabelSet.ofList [("a", "1"), ("b", "2"), ("a", "3")]).run
          [.remove "a", .insert "c" "4", .insert "a" "5"] ∧
        Reflects [.insert "a" "1", .insert "b" "2", .insert "a" "3",
          .remove "a", .insert "c" "4", .insert "a" "5"] s ∧
        s.labels = [⟨"b", "2"⟩, ⟨"c", "4"⟩, ⟨"a", "5"⟩] ∧
        ((Edit.remove "a").apply s).1 = some "5" ∧
        ((Edit.remove "a").apply s).2.get? "c" = some "4" := by
  have made := Made.ofList [("a", "1"), ("b", "2"), ("a", "3")]
  obtain ⟨told, next⟩ :=
    run_reflects_history made [.remove "a", .insert "c" "4", .insert "a" "5"]
  obtain ⟨before, others, _⟩ := next (.remove "a")
  refine ⟨made, _, rfl, told, by decide, before.trans (by decide), ?_⟩
  exact (others "c" (by decide)).trans (by decide)

end LabelSet

end MetricLabels
