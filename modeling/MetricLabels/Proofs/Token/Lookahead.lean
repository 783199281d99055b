import MetricLabels.Proofs.Text.Lines
import MetricLabels.Proofs.Token.Tiles

/-!
# Lookahead is invisible

Whoever calls a tokenizer sees the tokens of the text one after the other, and
behind them the end again and again (`endless`).  What a call answers depends on
two things only: how many tokens were consumed before it (`consumed`), and
whether the iterator has given out an end of the text (`ended`).  Both can be
read off the answers that came before.  Looking ahead changes neither.

The main statement is `answer_eq_reply`.  The stream of a tokenizer is what is
left of the endless one, which is shown for one call (`Tracks.step`) and then for
any number of them (`Tracks.run`).
-/

namespace MetricLabels

/-! ## Behind the end of the text -/

namespace Cursor

variable {c : Cursor}

/-- The place of the end of the text. -/
def ending (c : Cursor) : Position := c.pos.after c.ahead

@[simp] theorem ending_skip (c : Cursor) (n : Nat) : (c.skip n).ending = c.ending := by
  rw [ending, pos_skip, ahead_skip, ← Position.after_append, List.take_append_drop, ending]

@[simp] theorem ending_scan (c : Cursor) : c.scan.2.ending = c.ending :=
  (ending_skip _ _).trans (ending_skip _ _)

/-- An end of the text is scanned behind all characters, those of an open quote
included. -/
theorem ahead_scan_of_eof (eof : c.scan.1.kind = .eof) : c.scan.2.ahead = [] := by
  rcases allBlank_or_spells c.ahead with blank | ⟨blanks, s, rest, l, blank, spelled, ahead⟩
  · rw [scan, skipWhile_isBlank (List.append_nil c.ahead).symm blank (by simp)]
    rfl
  · rw [scan_spelled ahead blank spelled] at eof ⊢
    obtain ⟨_, _, _, _, _, rfl, rfl⟩ := spelled.of_eof eof
    rfl

theorem scan_of_ahead_eq_nil (nothing : c.ahead = []) :
    c.scan = (⟨.eof, c.pos, ""⟩, ⟨[], c.pos, none⟩) := by
  have ahead : c.ahead = [] ++ [] := nothing
  rw [scan, skipWhile_isBlank ahead .nil (by simp)]
  rfl

end Cursor

namespace Tokenizer

variable {t u : Tokenizer}

/-- Behind the end of the text the end comes again, and carries no text. -/
theorem stream_of_ahead_eq_nil (fresh : t.peeked = none) (nothing : t.cursor.ahead = []) :
    t.stream = Stream'.const ⟨.eof, t.cursor.pos, ""⟩ := by
  refine Stream'.ext fun n => ?_
  induction n generalizing t with
  | zero =>
      show t.next.1 = _
      rw [next_fresh fresh, Cursor.scan_of_ahead_eq_nil nothing]
      rfl
  | succ n ih =>
      show t.next.2.stream.get n = _
      rw [next_fresh fresh, Cursor.scan_of_ahead_eq_nil nothing]
      exact ih fresh rfl

/-- The tokens that the iterator gives, and then the end without a text for
ever. -/
theorem stream_eq_drain (fresh : t.peeked = none) (going : t.done = false) :
    t.stream = t.drain.1 ++ₛ Stream'.const ⟨.eof, t.cursor.ending, ""⟩ := by
  induction n : t.remaining using Nat.strong_induction_on generalizing t with
  | h n ih =>
    subst n
    have scanned := next_fresh fresh
    have fresh' : t.next.2.peeked = none := by rw [scanned]; exact fresh
    have ending : t.next.2.cursor.ending = t.cursor.ending := by
      rw [scanned]
      exact t.cursor.ending_scan
    rw [stream_eq_cons]
    by_cases eof : t.next.1.kind = .eof
    · have nothing : t.next.2.cursor.ahead = [] := by
        rw [scanned] at eof ⊢
        exact Cursor.ahead_scan_of_eof eof
      have place : t.next.2.cursor.pos = t.cursor.ending := by
        rw [← ending, Cursor.ending, nothing, Position.after_nil]
      rw [drain_of_eof going eof, stream_of_ahead_eq_nil fresh' nothing, place,
        Stream'.cons_append_stream, Stream'.nil_append_stream]
    · rw [drain_of_ne_eof going eof, Stream'.cons_append_stream,
        ih _ (remaining_next_lt t eof) fresh' (by rw [done_next, going]) rfl, ending]

/-- The tokens of a text, and then for ever the end without a text at the end of
the text. -/
def endless (text : String) : Stream' Token :=
  tokenize text ++ₛ Stream'.const ⟨.eof, .behind text.toList, ""⟩

/-- The tokens to come from a text are its tokens, and then the end for ever. -/
theorem stream_ofString (text : String) : (ofString text).stream = endless text := by
  rw [endless, ← Position.start_after]
  exact stream_eq_drain rfl rfl

/-! ## Calls and answers -/

/-- What a tokenizer is asked. -/
inductive Call where
  /-- To look at the next token. -/
  | peek
  /-- To consume the next token. -/
  | next
  /-- To consume the next token, which has to be of the kind. -/
  | expect (kind : Token.Kind)
  /-- To take a step as an iterator. -/
  | next?
deriving Repr, DecidableEq

/-- What a tokenizer answers. -/
inductive Answer where
  /-- The next token. -/
  | token (token : Token)
  /-- The next token, or an error about it. -/
  | checked (result : Except ParseError Token)
  /-- The next token of the iterator, if there is one. -/
  | item (token : Option Token)

/-- The answer to a call, and the tokenizer behind it. -/
def ask (t : Tokenizer) : Call → Answer × Tokenizer
  | .peek => (.token t.peek.1, t.peek.2)
  | .next => (.token t.next.1, t.next.2)
  | .expect kind => (.checked (t.expect kind).1, (t.expect kind).2)
  | .next? => (.item t.next?.1, t.next?.2)

/-- The tokenizer behind some calls. -/
def behind (t : Tokenizer) (calls : List Call) : Tokenizer :=
  calls.foldl (fun t call => (t.ask call).2) t

/-- Some calls and the answers to them. -/
def log (t : Tokenizer) : List Call → List (Call × Answer)
  | [] => []
  | call :: calls => (call, (t.ask call).1) :: (t.ask call).2.log calls

/-- Whether a token was consumed for the answer. -/
def consumes : Call × Answer → Bool
  | (.peek, _) => false
  | (.next, _) => true
  | (.expect _, _) => true
  | (.next?, .item none) => false
  | (.next?, _) => true

/-- The number of tokens that were consumed. -/
def consumed (log : List (Call × Answer)) : Nat := log.countP consumes

/-- Whether the answer is an end of the text that the iterator gives out. -/
def ends : Call × Answer → Bool
  | (.next?, .item (some token)) => token.kind == .eof
  | _ => false

/-- Whether the iterator has given out an end of the text. -/
def ended (log : List (Call × Answer)) : Bool := log.any ends

/-- The answer to a call when `n` tokens of the stream are consumed. -/
def reply (s : Stream' Token) (n : Nat) (ended : Bool) : Call → Answer
  | .peek => .token (s.get n)
  | .next => .token (s.get n)
  | .expect kind =>
      .checked <|
        if (s.get n).kind = kind then .ok (s.get n)
        else .error (.unexpected (.token kind) (s.get n).kind (s.get n).pos)
  | .next? => .item (if ended then none else some (s.get n))

theorem consumed_snoc (log : List (Call × Answer)) (entry : Call × Answer) :
    consumed (log ++ [entry]) = consumed log + if consumes entry then 1 else 0 := by
  rw [consumed, List.countP_append, List.countP_singleton, consumed]

theorem ended_snoc (log : List (Call × Answer)) (entry : Call × Answer) :
    ended (log ++ [entry]) = (ended log || ends entry) := by
  rw [ended, List.any_append, List.any_cons, List.any_nil, Bool.or_false, ended]

/-! ## One call -/

/-- A tokenizer has consumed as many tokens of the stream as the answers say, and
knows from them whether the iterator has ended. -/
structure Tracks (s : Stream' Token) (log : List (Call × Answer)) (t : Tokenizer) : Prop where
  /-- What is left of the stream. -/
  stream_eq : t.stream = s.drop (consumed log)
  /-- The flag of the iterator. -/
  done_eq : t.done = ended log

theorem expect_eq (t : Tokenizer) (kind : Token.Kind) :
    t.expect kind =
      (if t.next.1.kind = kind then .ok t.next.1
        else .error (.unexpected (.token kind) t.next.1.kind t.next.1.pos), t.next.2) := by
  show (if t.next.1.kind = kind then (Except.ok t.next.1, t.next.2) else _) = _
  split
  next => rfl
  next => rfl

theorem done_peek (t : Tokenizer) : t.peek.2.done = t.done := by
  rw [peek]
  split
  next => rfl
  next => rfl

/-- The flag of the iterator does not change what is scanned. -/
theorem next_with_done (done : Bool) (t : Tokenizer) :
    { t with done := done }.next = (t.next.1, { t.next.2 with done := done }) := by
  cases peeked : t.peeked with
  | none => simp [next, peeked]
  | some token => simp [next, peeked]

theorem stream_with_done (done : Bool) (t : Tokenizer) :
    { t with done := done }.stream = t.stream := by
  refine Stream'.ext fun n => ?_
  induction n generalizing t with
  | zero =>
      show { t with done := done }.next.1 = t.next.1
      rw [next_with_done]
  | succ n ih =>
      show { t with done := done }.next.2.stream.get n = t.next.2.stream.get n
      rw [next_with_done]
      exact ih t.next.2

namespace Tracks

variable {s : Stream' Token} {past : List (Call × Answer)}

/-- A tokenizer gives the token whose turn it is. -/
theorem next_eq (tracks : Tracks s past t) : t.next.1 = s.get (consumed past) := by
  have first : t.stream.head = (s.drop (consumed past)).head := by rw [tracks.stream_eq]
  rwa [Stream'.head_drop] at first

/-- An answer for which nothing is consumed. -/
theorem looked (tracks : Tracks s past t) {entry : Call × Answer} (stays : consumes entry = false)
    (goes : ends entry = false) (stream : u.stream = t.stream) (done : u.done = t.done) :
    Tracks s (past ++ [entry]) u where
  stream_eq := by
    rw [stream, tracks.stream_eq, consumed_snoc, stays]
    rfl
  done_eq := by rw [done, tracks.done_eq, ended_snoc, goes, Bool.or_false]

/-- An answer for which a token is consumed. -/
theorem took (tracks : Tracks s past t) {entry : Call × Answer} (consumes : consumes entry = true)
    (stream : u.stream = t.next.2.stream) (done : u.done = (t.done || ends entry)) :
    Tracks s (past ++ [entry]) u where
  stream_eq := by
    have rest : t.stream.tail = (s.drop (consumed past)).tail := by rw [tracks.stream_eq]
    rw [stream, consumed_snoc, consumes]
    exact rest.trans Stream'.tail_drop'
  done_eq := by rw [done, tracks.done_eq, ended_snoc]

/-- A call is answered as the stream, the number of tokens consumed and the end of
the iterator require, and the answer says what becomes of the last two. -/
theorem step (tracks : Tracks s past t) (call : Call) :
    (t.ask call).1 = reply s (consumed past) (ended past) call ∧
      Tracks s (past ++ [(call, (t.ask call).1)]) (t.ask call).2 := by
  have flag : t.next.2.done = (t.done || false) := by rw [done_next, Bool.or_false]
  cases call with
  | peek =>
      exact ⟨congrArg Answer.token (t.peek_fst.trans tracks.next_eq),
        tracks.looked rfl rfl t.stream_peek t.done_peek⟩
  | next => exact ⟨congrArg Answer.token tracks.next_eq, tracks.took rfl rfl flag⟩
  | expect kind =>
      rw [ask, expect_eq, reply, ← tracks.next_eq]
      exact ⟨rfl, tracks.took rfl rfl flag⟩
  | next? =>
      rw [ask, next?, reply, ← tracks.next_eq, ← tracks.done_eq]
      by_cases finished : t.done = true
      · rw [if_pos finished, if_pos finished]
        exact ⟨rfl, tracks.looked rfl rfl rfl rfl⟩
      · rw [if_neg finished, if_neg finished]
        refine ⟨rfl, tracks.took rfl (stream_with_done _ t.next.2) ?_⟩
        rw [Bool.eq_false_iff.mpr finished, Bool.false_or]
        rfl

/-! ## Any number of calls -/

/-- It keeps track over any calls, by induction on them. -/
theorem run (calls : List Call) : ∀ {past : List (Call × Answer)} {t : Tokenizer},
    Tracks s past t → Tracks s (past ++ t.log calls) (t.behind calls) := by
  induction calls with
  | nil =>
      intro past t tracks
      rwa [log, List.append_nil]
  | cons call calls ih =>
      intro past t tracks
      have rest := ih (tracks.step call).2
      rwa [List.append_assoc] at rest

end Tracks

/-- Whatever was asked before, a call to the tokenizer of a text is answered by
the token of the endless stream that follows those consumed.  Only an iterator
that has given out an end of the text answers otherwise, with nothing. -/
theorem answer_eq_reply (text : String) (calls : List Call) (call : Call) :
    let past := (ofString text).log calls
    (((ofString text).behind calls).ask call).1 =
      reply (endless text) (consumed past) (ended past) call := by
  have start : Tracks (endless text) [] (ofString text) := ⟨stream_ofString text, rfl⟩
  exact ((start.run calls).step call).1

/-- The end of an open quote has a text.  The iterator gives nothing behind it,
and the tokenizer another end. -/
example : ((ofString "'a").log [.next?, .next?, .next]).map Prod.snd =
    [.item (some ⟨.eof, ⟨1, 3⟩, "a"⟩), .item none, .token ⟨.eof, ⟨1, 3⟩, ""⟩] := rfl

end Tokenizer

end MetricLabels
