import MetricLabels.Proofs.Selector.Words

/-!
# Places in a selector

How far a sequence of kinds is a selector is a matter of seven places between
tokens, and an eighth behind the end of the text.  `Place.next?` says which
kinds may stand at a place and where they lead, and `Place.run` follows a
sequence.

From every place some sequence leads to the end (`run_exit`).  So the sequences
that can be followed are exactly those that can still become a whole text: the
*viable* ones, which are the prefixes of a word with the end of the text behind
it (`viable_iff`).
-/

namespace MetricLabels.Selector

/-! ## Places -/

/-- The places of a selector, each called for what stands before it. -/
inductive Place where
  /-- Nothing. -/
  | start
  /-- The name of the metric. -/
  | named
  /-- An opening brace, or a comma. -/
  | inside
  /-- The name of a label. -/
  | label
  /-- The operator of a condition. -/
  | operated
  /-- The value of a condition. -/
  | valued
  /-- The closing brace. -/
  | closed
  /-- The end of the text. -/
  | ended
deriving DecidableEq, Repr

namespace Place

/-- The place behind a token of the given kind, if such a token may stand here. -/
def next? (d : Dialect) : Place → Token.Kind → Option Place
  | start, .ident => some named
  | start, .lbrace => some inside
  | named, .lbrace => some inside
  | named, .eof => some ended
  | inside, .ident => some label
  | inside, .rbrace => some closed
  | label, kind => if (d.operator? kind).isSome then some operated else none
  | operated, .string => some valued
  | valued, .comma => some inside
  | valued, .rbrace => some closed
  | closed, .eof => some ended
  | _, _ => none

/-- The kinds of tokens that may stand at a place. -/
def follow (d : Dialect) : Place → List Token.Kind
  | start => [.ident, .lbrace]
  | named => [.lbrace, .eof]
  | inside => [.ident, .rbrace]
  | label =>
      match d with
      | .labels => [.eq]
      | .matchers => [.eq, .neq, .eqRegexp, .neqRegexp]
  | operated => [.string]
  | valued => [.comma, .rbrace]
  | closed => [.eof]
  | ended => []

/-- The place behind tokens of the given kinds, if they may stand here in this
order. -/
def run (d : Dialect) : Place → List Token.Kind → Option Place
  | p, [] => some p
  | p, kind :: kinds => (p.next? d kind).bind fun q => run d q kinds

/-- The kinds of the shortest way from a place to the end. -/
def exit : Place → List Token.Kind
  | start => [.lbrace, .rbrace, .eof]
  | named => [.eof]
  | inside => [.rbrace, .eof]
  | label => [.eq, .string, .rbrace, .eof]
  | operated => [.string, .rbrace, .eof]
  | valued => [.rbrace, .eof]
  | closed => [.eof]
  | ended => []

variable {d : Dialect} {p q : Place} {kind : Token.Kind} {kinds : List Token.Kind}

/-- The kinds that lead on from a place are those that may stand there. -/
theorem isSome_next? (d : Dialect) (p : Place) (kind : Token.Kind) :
    (p.next? d kind).isSome = (p.follow d).contains kind := by
  cases d <;> cases p <;> cases kind <;> rfl

theorem next?_eq_none_iff : p.next? d kind = none ↔ kind ∉ p.follow d := by
  rw [← Option.not_isSome_iff_eq_none, isSome_next?, List.contains_iff_mem]

@[simp] theorem run_nil (d : Dialect) (p : Place) : run d p [] = some p := rfl

theorem run_cons (d : Dialect) (p : Place) (kind : Token.Kind) (kinds : List Token.Kind) :
    run d p (kind :: kinds) = (p.next? d kind).bind fun q => run d q kinds := rfl

theorem run_cons_of_next? (next : p.next? d kind = some q) :
    run d p (kind :: kinds) = run d q kinds := by
  rw [run_cons, next, Option.bind_some]

/-- A sequence is followed part by part. -/
theorem run_append (d : Dialect) (ks ls : List Token.Kind) :
    ∀ p : Place, run d p (ks ++ ls) = (run d p ks).bind fun q => run d q ls := by
  induction ks with
  | nil => exact fun _ => rfl
  | cons kind ks ih =>
      intro p
      rw [List.cons_append, run_cons, run_cons, Option.bind_assoc]
      simp only [ih]

/-- From every place there is a way to the end. -/
theorem run_exit (d : Dialect) (p : Place) : run d p p.exit = some ended := by
  cases d <;> cases p <;> rfl

/-- An equal sign may stand at one place only. -/
theorem eq_label_of_next?_eq (next : (p.next? d .eq).isSome) : p = label := by
  cases p with
  | label => rfl
  | _ => cases next

theorem next?_ended (d : Dialect) (kind : Token.Kind) : ended.next? d kind = none := by
  cases kind <;> rfl

theorem eq_ended_of_next?_eof (next : p.next? d .eof = some q) : q = ended := by
  cases d <;> cases p <;> cases next <;> rfl

/-- The text may end behind a name and behind braces. -/
theorem of_next?_eq_ended (next : p.next? d kind = some ended) :
    kind = .eof ∧ (p = named ∨ p = closed) := by
  unfold next? at next
  split at next <;> simp_all

/-- The end of the text leads to the place behind it, and nothing leads on. -/
theorem eof_notMem_of_run : ∀ {kinds : List Token.Kind} {p : Place},
    run d p kinds = some q → q ≠ ended → .eof ∉ kinds := by
  intro kinds
  induction kinds with
  | nil => exact fun _ _ => List.not_mem_nil
  | cons kind kinds ih =>
      intro p h going member
      rw [run_cons] at h
      obtain ⟨r, next, rest⟩ := Option.bind_eq_some_iff.mp h
      rcases List.mem_cons.mp member with rfl | member
      · obtain rfl := eq_ended_of_next?_eof next
        cases kinds with
        | nil => exact going (Option.some.inj rest).symm
        | cons kind kinds =>
            rw [run_cons, next?_ended] at rest
            cases rest
      · exact ih rest going member

end Place

/-! ## Words lead from the start to the end -/

section

variable {d : Dialect} {c : Condition} {cs : List Condition} {w : List Token}

/-- A condition leads from inside the braces to behind a value. -/
theorem ConditionWord.run_eq (word : ConditionWord d c w) :
    Place.inside.run d (w.map Token.kind) = some .valued := by
  cases word with
  | intro named operated valued =>
      simp [Place.run, Place.next?, named, operated, valued]

/-- So does a list of them, since a comma leads back inside. -/
theorem ListWord.run_eq (word : ListWord d cs w) :
    Place.inside.run d (w.map Token.kind) = some .valued := by
  induction word with
  | last first => exact first.run_eq
  | more first separated _ ih =>
      rw [List.map_append, Place.run_append, first.run_eq, List.map_cons, separated]
      exact ih

/-- Braces lead to behind the closing one, from wherever they may open. -/
theorem BracesWord.run_eq (word : BracesWord d cs w) {p : Place}
    (opens : p.next? d .lbrace = some .inside) :
    p.run d (w.map Token.kind) = some .closed := by
  cases word with
  | empty left right =>
      rw [List.map_cons, left, Place.run_cons_of_next? opens, List.map_cons, right]
      rfl
  | list left word right =>
      rw [List.map_cons, left, Place.run_cons_of_next? opens, List.map_append, Place.run_append,
        word.run_eq, List.map_singleton, right]
      rfl
  | trailing left word separated right =>
      rw [List.map_cons, left, Place.run_cons_of_next? opens, List.map_append, Place.run_append,
        word.run_eq, List.map_cons, separated, List.map_singleton, right]
      rfl

/-- A word leads to behind the name that it is, or behind its braces. -/
theorem Word.run_eq (word : Word d cs w) :
    Place.start.run d (w.map Token.kind) =
      some (if w.length = 1 then .named else .closed) := by
  cases word with
  | name named => rw [List.map_singleton, named]; rfl
  | braces word => rw [word.run_eq rfl, if_neg word.length_ne_one]
  | both named word =>
      obtain ⟨left, rest, rfl, _, _⟩ := word.exists_cons
      rw [List.map_cons, named, Place.run_cons_of_next? rfl, word.run_eq rfl, if_neg (by simp)]

/-- Behind a word the text may end. -/
theorem Word.run_append_eof (word : Word d cs w) :
    Place.start.run d (w.map Token.kind ++ [.eof]) = some .ended := by
  rw [Place.run_append, word.run_eq, Option.bind_some]
  split <;> rfl

/-- No token of a word is the end of the text. -/
theorem Word.ne_eof (word : Word d cs w) : ∀ token ∈ w, token.kind ≠ .eof := by
  intro token member eof
  refine Place.eof_notMem_of_run word.run_eq ?_ (eof ▸ List.mem_map_of_mem member)
  split
  next => exact Place.noConfusion
  next => exact Place.noConfusion

end

/-! ## What leads to the end completes a word -/

section

variable {d : Dialect}

/-- Behind an opening brace, these tokens complete the braces. -/
def CompletesBraces (d : Dialect) (v : List Token) : Prop :=
  ∀ left : Token, left.kind = .lbrace → ∃ cs, BracesWord d cs (left :: v)

/-- The tokens complete a selector from a place on. -/
def Completes (d : Dialect) (v : List Token) : Place → Prop
  | .start => ∃ cs, Word d cs v
  | .named => v = [] ∨ ∃ cs, BracesWord d cs v
  | .inside => CompletesBraces d v
  | .label => ∀ name : Token, name.kind = .ident → CompletesBraces d (name :: v)
  | .operated => ∀ name sign : Token, name.kind = .ident → (d.operator? sign.kind).isSome →
      CompletesBraces d (name :: sign :: v)
  | .valued => ∀ c w, ConditionWord d c w → CompletesBraces d (w ++ v)
  | .closed => v = []
  | .ended => False

/-- A condition and a comma may stand before tokens that complete the braces. -/
theorem CompletesBraces.cons {c : Condition} {comma : Token} {v w : List Token}
    (rest : CompletesBraces d v) (first : ConditionWord d c w) (separated : comma.kind = .comma) :
    CompletesBraces d (w ++ comma :: v) := by
  intro left opens
  obtain ⟨cs, word⟩ := rest left opens
  cases word with
  | empty _ closes => exact ⟨_, .trailing opens (.last first) separated closes⟩
  | list _ word closes =>
      exact ⟨_, by simpa using BracesWord.list opens (.more first separated word) closes⟩
  | trailing _ word separated' closes =>
      exact ⟨_, by
        simpa using BracesWord.trailing opens (.more first separated word) separated' closes⟩

/-- One token more, at the place before it. -/
theorem Completes.cons {p q : Place} {token : Token} {v : List Token}
    (next : p.next? d token.kind = some q) (rest : Completes d v q) :
    Completes d (token :: v) p := by
  generalize same : token.kind = kind at next
  unfold Place.next? at next
  -- The steps in the order of the definition: each puts its token in front of what completes
  -- the selector from the place behind it.
  split at next
  next =>
    cases next
    rcases rest with rfl | ⟨cs, word⟩
    · exact ⟨_, .name same⟩
    · exact ⟨_, .both same word⟩
  next =>
    cases next
    obtain ⟨cs, word⟩ := rest token same
    exact ⟨cs, .braces word⟩
  next =>
    cases next
    exact .inr (rest token same)
  next => cases next; exact rest.elim
  next => cases next; exact rest token same
  next =>
    cases next
    subst rest
    exact fun left opens => ⟨_, .empty opens same⟩
  next =>
    split at next
    next operated =>
      cases next
      exact fun name named => rest name token named (same ▸ operated)
    next => cases next
  next =>
    cases next
    intro name sign named operated
    obtain ⟨op, found⟩ := Option.isSome_iff_exists.mp operated
    exact rest _ _ (.intro named found same)
  next =>
    cases next
    exact fun c w first => CompletesBraces.cons rest first same
  next =>
    cases next
    subst rest
    exact fun c w first left opens => ⟨_, .list opens (.last first) same⟩
  next => cases next; exact rest.elim
  next => cases next

/-- What leads to the end completes a selector, by induction from the end. -/
theorem completes_of_run {v : List Token} : ∀ {p : Place},
    p.run d (v.map Token.kind) = some .ended →
      (p = .ended ∧ v = []) ∨
        ∃ w last, v = w ++ [last] ∧ last.kind = .eof ∧ Completes d w p := by
  induction v with
  | nil => exact fun h => .inl ⟨Option.some.inj h, rfl⟩
  | cons token v ih =>
      intro p h
      rw [List.map_cons, Place.run_cons] at h
      obtain ⟨q, next, rest⟩ := Option.bind_eq_some_iff.mp h
      rcases ih rest with ⟨rfl, rfl⟩ | ⟨w, last, rfl, eof, completes⟩
      · obtain ⟨eof, rfl | rfl⟩ := Place.of_next?_eq_ended next
        · exact .inr ⟨[], token, rfl, eof, .inl rfl⟩
        · exact .inr ⟨[], token, rfl, eof, rfl⟩
      · exact .inr ⟨token :: w, last, rfl, eof, completes.cons next⟩

/-! ## Viable sequences -/

/-- The kinds of the first tokens of some text that is a selector from end to
end. -/
def Viable (d : Dialect) (kinds : List Token.Kind) : Prop :=
  ∃ cs w, Word d cs w ∧ kinds <+: w.map Token.kind ++ [.eof]

/-- Kinds are viable if they can be followed from the start. -/
theorem viable_iff {kinds : List Token.Kind} :
    Viable d kinds ↔ (Place.start.run d kinds).isSome := by
  constructor
  · rintro ⟨cs, w, word, rest, cut⟩
    have whole := word.run_append_eof
    rw [← cut, Place.run_append] at whole
    obtain ⟨q, run, _⟩ := Option.bind_eq_some_iff.mp whole
    rw [run]
    rfl
  · intro h
    obtain ⟨q, run⟩ := Option.isSome_iff_exists.mp h
    -- Tokens of these kinds, with those of the way out behind them.
    let v : List Token := (kinds ++ q.exit).map fun kind => ⟨kind, .start, ""⟩
    have kindsOf : v.map Token.kind = kinds ++ q.exit := by
      rw [List.map_map]
      exact List.map_id _
    have whole : Place.start.run d (v.map Token.kind) = some .ended := by
      rw [kindsOf, Place.run_append, run]
      exact Place.run_exit d q
    rcases completes_of_run whole with ⟨impossible, _⟩ | ⟨w, last, cut, eof, cs, word⟩
    · cases impossible
    · refine ⟨cs, w, word, q.exit, ?_⟩
      rw [← kindsOf, cut, List.map_append, List.map_singleton, eof]

/-- What may come next is what may stand at the place that is reached. -/
theorem viable_snoc_iff {kinds : List Token.Kind} {kind : Token.Kind} {p : Place}
    (run : Place.start.run d kinds = some p) :
    Viable d (kinds ++ [kind]) ↔ (p.next? d kind).isSome := by
  rw [viable_iff, Place.run_append, run, Option.bind_some, Place.run_cons]
  cases p.next? d kind with
  | none => rfl
  | some q => rfl

end

end MetricLabels.Selector
