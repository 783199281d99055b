import MetricLabels.Token.Tokenizer

/-!
# Readers of tokens

A reader takes tokens off a tokenizer and gives a value or an error.  Readers
are put together in sequence (`bind_apply`).  The readers here and all that are
put together from them leave no more tokens than they found (`Consumes`), and
one that requires a token other than the end leaves fewer
(`remaining_lt_of_expect`).  That is what ends a loop of readers.
-/

namespace MetricLabels

/-- A reader of tokens.  It gives a value or an error, and in both cases the
tokenizer behind the tokens that it consumed. -/
abbrev TokenReader := ExceptT ParseError (StateM Tokenizer)

namespace TokenReader

/-- The next token, which is not consumed. -/
def peek : TokenReader Token := ExceptT.mk fun t => (.ok t.peek.1, t.peek.2)

/-- Consumes the next token. -/
def next : TokenReader Token := ExceptT.mk fun t => (.ok t.next.1, t.next.2)

/-- Consumes the next token, which has to be of the given kind. -/
def expect (kind : Token.Kind) : TokenReader Token := ExceptT.mk fun t => t.expect kind

/-! ## What readers consume -/

/-- Reading one thing and then another starts the second where the first ended. -/
theorem bind_apply {α β : Type} (x : TokenReader α) (f : α → TokenReader β) (t : Tokenizer) :
    (x >>= f) t =
      match x t with
      | (.ok a, t') => f a t'
      | (.error e, t') => (.error e, t') := by
  show (ExceptT.bindCont f (x t).1 : StateM Tokenizer _) (x t).2 = _
  rcases x t with ⟨_ | _, _⟩ <;> rfl

/-- A reader that leaves no more tokens than there were. -/
def Consumes {α : Type} (x : TokenReader α) : Prop := ∀ t, (x t).2.remaining ≤ t.remaining

theorem Consumes.bind {α β : Type} {x : TokenReader α} {f : α → TokenReader β}
    (hx : Consumes x) (hf : ∀ a, Consumes (f a)) : Consumes (x >>= f) := by
  intro t
  have first := hx t
  rw [bind_apply]
  split
  next a t' h => exact Nat.le_trans (hf a t') (by simpa [h] using first)
  next e t' h => simpa [h] using first

theorem Consumes.pure {α : Type} (a : α) : Consumes (pure a) := fun _ => Nat.le_refl _

theorem consumes_next : Consumes next := Tokenizer.remaining_next_le

theorem consumes_expect (kind : Token.Kind) : Consumes (expect kind) := by
  intro t
  have step := t.remaining_next_le
  simp only [expect, ExceptT.mk, Tokenizer.expect]
  split <;> exact step

/-- A token that is required and comes is taken, unless it is the end. -/
theorem remaining_lt_of_expect {kind : Token.Kind} {t t' : Tokenizer} {token : Token}
    (h : expect kind t = (.ok token, t')) (other : kind ≠ .eof) : t'.remaining < t.remaining := by
  simp only [expect, ExceptT.mk, Tokenizer.expect] at h
  split at h
  next same =>
    cases h
    exact t.remaining_next_lt (same ▸ other)
  next => cases h

end TokenReader

end MetricLabels
