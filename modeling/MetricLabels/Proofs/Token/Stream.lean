import Mathlib.Data.Stream.Init
import MetricLabels.Token.Tokenizer

/-!
# The stream of tokens

A tokenizer never runs dry: behind the end of the text it goes on to give the
end.  So what it is going to give is an infinite sequence, `Tokenizer.stream`.
A token that was only looked at is still the first of it (`stream_peek`).

`Takes t w u` says that consuming the tokens `w` one by one leads from `t` to
`u`.  It cuts the stream of `t` behind `w` (`Takes.stream_eq`), and every cut of
the stream arises so (`takes_of_stream_eq`).  `tokenize` lists the stream up to
the first end of the text (`Takes.drain_eq`).
-/

namespace MetricLabels.Tokenizer

/-! ## Looking ahead -/

@[simp] theorem peek_fst (t : Tokenizer) : t.peek.1 = t.next.1 := by
  rw [peek, next]
  split
  next => rfl
  next => rfl

/-- A token that was looked at comes next, and the tokenizer behind it is the
one behind a token that was not. -/
@[simp] theorem next_peek (t : Tokenizer) : t.peek.2.next = t.next := by
  rw [peek]
  split
  next => rfl
  next fresh => simp [next, fresh]

@[simp] theorem expect_peek (t : Tokenizer) (kind : Token.Kind) :
    t.peek.2.expect kind = t.expect kind := by
  rw [expect, expect, next_peek]

/-! ## Tokens one by one -/

/-- The tokenizer behind the next `n` tokens. -/
def skip : Tokenizer → Nat → Tokenizer
  | t, 0 => t
  | t, n + 1 => t.next.2.skip n

/-- The tokens that the tokenizer gives from here on. -/
def stream (t : Tokenizer) : Stream' Token := fun n => (t.skip n).next.1

/-- The tokens to come are the next one and those behind it. -/
theorem stream_eq_cons (t : Tokenizer) : t.stream = Stream'.cons t.next.1 t.next.2.stream :=
  (Stream'.eta t.stream).symm

/-- Looking at a token leaves the stream as it was. -/
@[simp] theorem stream_peek (t : Tokenizer) : t.peek.2.stream = t.stream := by
  rw [stream_eq_cons, stream_eq_cons t, next_peek]

/-- The tokens `w` come next from the first tokenizer, and the second is what
is left behind them. -/
inductive Takes : Tokenizer → List Token → Tokenizer → Prop where
  | refl (t : Tokenizer) : Takes t [] t
  | next {t u : Tokenizer} {w : List Token} : Takes t.next.2 w u → Takes t (t.next.1 :: w) u

namespace Takes

variable {t u r : Tokenizer} {v w : List Token}

@[simp] theorem nil_iff : Takes t [] u ↔ u = t := by
  constructor
  · intro taken
    cases taken with
    | refl => rfl
  · rintro rfl
    exact .refl _

@[simp] theorem cons_iff {token : Token} :
    Takes t (token :: w) u ↔ t.next.1 = token ∧ Takes t.next.2 w u := by
  constructor
  · intro taken
    cases taken with
    | next rest => exact ⟨rfl, rest⟩
  · rintro ⟨rfl, rest⟩
    exact .next rest

/-- Tokens are taken in two parts if they are taken at all. -/
theorem append_iff : Takes t (v ++ w) u ↔ ∃ r, Takes t v r ∧ Takes r w u := by
  induction v generalizing t with
  | nil => simp
  | cons token v ih => simp [ih, and_assoc]

theorem trans (first : Takes t v u) (second : Takes u w r) : Takes t (v ++ w) r :=
  append_iff.mpr ⟨u, first, second⟩

/-- One more token behind those taken. -/
theorem snoc (taken : Takes t w u) : Takes t (w ++ [u.next.1]) u.next.2 :=
  taken.trans (.next (.refl _))

/-- What is taken comes first. -/
theorem stream_eq (taken : Takes t w u) : t.stream = w ++ₛ u.stream := by
  induction taken with
  | refl => rfl
  | next _ ih => rw [stream_eq_cons, ih, Stream'.cons_append_stream]

theorem eq_skip (taken : Takes t w u) : u = t.skip w.length := by
  induction taken with
  | refl => rfl
  | next _ ih => exact ih

/-- How many tokens come before the first end of the text is determined. -/
theorem unique (taken : Takes t w u) : ∀ {v : List Token} {r : Tokenizer}, Takes t v r →
    (∀ token ∈ w, token.kind ≠ .eof) → (∀ token ∈ v, token.kind ≠ .eof) →
    u.next.1.kind = .eof → r.next.1.kind = .eof → w = v ∧ u = r := by
  induction taken with
  | refl =>
      intro v r taken' _ more' eof _
      cases taken' with
      | refl => exact ⟨rfl, rfl⟩
      | next _ => exact absurd eof (more' _ (.head _))
  | next _ ih =>
      intro v r taken' more more' eof eof'
      cases taken' with
      | refl => exact absurd eof' (more _ (.head _))
      | next rest =>
          obtain ⟨rfl, rfl⟩ := ih rest (fun token member => more token (.tail _ member))
            (fun token member => more' token (.tail _ member)) eof eof'
          exact ⟨rfl, rfl⟩

end Takes

/-- Every cut of the stream is reached by taking tokens. -/
theorem takes_of_stream_eq {w : List Token} : ∀ {t : Tokenizer} {r : Stream' Token},
    t.stream = w ++ₛ r → Takes t w (t.skip w.length) ∧ (t.skip w.length).stream = r := by
  induction w with
  | nil => exact fun cut => ⟨.refl _, cut⟩
  | cons token w ih =>
      intro t r cut
      rw [stream_eq_cons, Stream'.cons_append_stream] at cut
      obtain ⟨same, rest⟩ := Stream'.cons_injective2 cut
      obtain ⟨taken, left⟩ := ih rest
      exact ⟨same ▸ .next taken, left⟩

/-! ## Up to the first end of the text -/

@[simp] theorem done_next (t : Tokenizer) : t.next.2.done = t.done := by
  rw [next]
  split
  next => rfl
  next => rfl

theorem drain_of_done {t : Tokenizer} (finished : t.done = true) : t.drain.1 = [] := by
  have last : t.next? = (none, t) := by rw [next?, if_pos finished]
  rw [drain]
  split
  next => rfl
  next h => cases last.symm.trans h

theorem drain_of_eof {t : Tokenizer} (going : t.done = false) (eof : t.next.1.kind = .eof) :
    t.drain.1 = [t.next.1] := by
  have last : t.next? = (some t.next.1, { t.next.2 with done := true }) := by
    simp [next?, going, eof]
  rw [drain]
  split
  next h => cases last.symm.trans h
  next token rest h =>
    cases last.symm.trans h
    show t.next.1 :: (drain _).1 = [t.next.1]
    rw [drain_of_done rfl]

/-- Before the end, draining gives the next token and goes on. -/
theorem drain_of_ne_eof {t : Tokenizer} (going : t.done = false) (more : t.next.1.kind ≠ .eof) :
    t.drain.1 = t.next.1 :: t.next.2.drain.1 := by
  have flag : (t.next.1.kind == .eof) = t.next.2.done := by
    rw [done_next, going, beq_eq_false_iff_ne]
    exact more
  have first : t.next? = (some t.next.1, t.next.2) := by
    rw [next?, if_neg (by simp [going])]
    show (some t.next.1, { t.next.2 with done := (t.next.1.kind == Token.Kind.eof) }) = _
    rw [flag]
  rw [drain]
  split
  next h => cases first.symm.trans h
  next token rest h =>
    cases first.symm.trans h
    rfl

theorem exists_drain_eq_cons {t : Tokenizer} (going : t.done = false) :
    ∃ rest, t.drain.1 = t.next.1 :: rest := by
  by_cases eof : t.next.1.kind = .eof
  · exact ⟨_, drain_of_eof going eof⟩
  · exact ⟨_, drain_of_ne_eof going eof⟩

/-- The iterator gives the tokens in the order in which they are taken. -/
theorem Takes.drain_eq {t u : Tokenizer} {w : List Token} (taken : Takes t w u)
    (going : t.done = false) (more : ∀ token ∈ w, token.kind ≠ .eof) :
    t.drain.1 = w ++ u.drain.1 ∧ u.done = false := by
  induction taken with
  | refl => exact ⟨rfl, going⟩
  | @next t u w _ ih =>
      obtain ⟨rest, still⟩ := ih (by rw [done_next, going])
        fun token member => more token (.tail _ member)
      rw [drain_of_ne_eof going (more _ (.head _)), rest]
      exact ⟨rfl, still⟩

end MetricLabels.Tokenizer
