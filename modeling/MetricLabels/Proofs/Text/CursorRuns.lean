import MetricLabels.Proofs.Text.Lines
import MetricLabels.Text.Cursor

/-!
# Runs of a cursor

A cursor holds the characters ahead.  It may as well keep the text whole and
count bytes, as a `ByteCursor` does.  That one moves two counters, the offset of
the next character and its position, and `unread` restores both from a saved
pair.  `ByteCursor.view` forgets the text, and what it shows answers every call
as the byte cursor does (`ByteCursor.ask_view`).

The saved pair makes the invariant.  Both the counters and the pair denote the
place behind some first part of the text (`ByteCursor.Sound`), which holds at the
start and behind each call (`Sound.step`), and so behind any number of them
(`Sound.run`).

What can be taken back is told by the calls alone: a read that returned a
character, with nothing but looks behind it.  `behind_consistent` puts the two
together.
-/

namespace MetricLabels

/-! ## Calls and answers -/

/-- A reader of characters, which can look at two of them and take one read
back. -/
class CharReader (σ : Type) where
  /-- Reads the next character. -/
  read : σ → Option Char × σ
  /-- Takes the latest read back, if there is one to take back. -/
  unread : σ → σ
  /-- The next character, which stays ahead. -/
  peek : σ → Option Char
  /-- The next two characters, which stay ahead. -/
  peek2 : σ → Option Char × Option Char
  /-- Stays where it is and gives up the read that can be taken back. -/
  settle : σ → σ
  /-- A read that returned a character is taken back in full. -/
  unread_read (s : σ) : (read s).1 ≠ none → unread (read s).2 = settle s
  /-- A read at the end of the text leaves nothing to take back. -/
  read_of_ended (s : σ) : (read s).1 = none → (read s).2 = settle s
  /-- Only one read can be taken back. -/
  settle_unread (s : σ) : settle (unread s) = unread s
  /-- Where nothing can be taken back, nothing is. -/
  unread_settle (s : σ) : unread (settle s) = settle s

namespace CharReader

/-- What a reader is asked. -/
inductive Call where
  /-- To read the next character. -/
  | read
  /-- To take the latest read back. -/
  | unread
  /-- To look at the next character. -/
  | peek
  /-- To look at the next two characters. -/
  | peek2
deriving Repr, DecidableEq

/-- Whether the call only looks at what is ahead. -/
def Call.looks : Call → Bool
  | .read => false
  | .unread => false
  | .peek => true
  | .peek2 => true

/-- What a reader answers. -/
inductive Answer where
  /-- The next character, if there is one. -/
  | one (next : Option Char)
  /-- The next two characters, as far as there are any. -/
  | two (next : Option Char × Option Char)
  /-- Nothing. -/
  | done
deriving Repr, DecidableEq

variable {σ : Type} [CharReader σ] {s : σ} {calls looks : List Call}

/-- The answer to a call, and the reader behind it. -/
def ask (s : σ) : Call → Answer × σ
  | .read => (.one (read s).1, (read s).2)
  | .unread => (.done, unread s)
  | .peek => (.one (peek s), s)
  | .peek2 => (.two (peek2 s), s)

/-- The reader behind some calls. -/
def behind (s : σ) (calls : List Call) : σ := calls.foldl (fun s call => (ask s call).2) s

theorem behind_append (s : σ) (calls more : List Call) :
    behind s (calls ++ more) = behind (behind s calls) more := List.foldl_append

theorem ask_of_looks {call : Call} (looks : call.looks = true) : (ask s call).2 = s := by
  cases call with
  | read | unread => cases looks
  | peek | peek2 => rfl

/-- Looks change nothing. -/
theorem behind_of_looks (onlyLooks : ∀ call ∈ looks, call.looks = true) : behind s looks = s := by
  induction looks with
  | nil => rfl
  | cons call looks ih =>
      obtain ⟨first, others⟩ := List.forall_mem_cons.mp onlyLooks
      show behind (ask s call).2 looks = s
      rw [ask_of_looks first, ih others]

/-- Behind the calls there is no read to take back. -/
inductive Settled (s : σ) : List Call → Prop where
  /-- Nothing was read. -/
  | start : Settled s []
  /-- A read was taken back, or might have been. -/
  | unread (calls : List Call) : Settled s (calls ++ [.unread])
  /-- There was nothing left to read. -/
  | ended {calls : List Call} : (read (behind s calls)).1 = none → Settled s (calls ++ [.read])

/-- Settled calls leave nothing to take back. -/
theorem Settled.settle_behind (settled : Settled s calls) (fresh : settle s = s) :
    settle (behind s calls) = behind s calls := by
  have idle (t : σ) : settle (settle t) = settle t := by rw [← unread_settle t, settle_unread]
  cases settled with
  | start => exact fresh
  | unread calls =>
      rw [behind_append]
      exact settle_unread _
  | ended ended =>
      rw [behind_append]
      show settle (read _).2 = (read _).2
      rw [read_of_ended _ ended, idle]

/-- Where there is no read to take back, none is. -/
theorem unread_of_settled (settled : Settled s calls) (fresh : settle s = s)
    (onlyLooks : ∀ call ∈ looks, call.looks = true) :
    unread (behind s (calls ++ looks)) = behind s (calls ++ looks) := by
  rw [behind_append, behind_of_looks onlyLooks, ← settled.settle_behind fresh, unread_settle]

/-- A read is taken back across looks. -/
theorem unread_behind_read (found : (read (behind s calls)).1 ≠ none)
    (onlyLooks : ∀ call ∈ looks, call.looks = true) :
    unread (behind s (calls ++ .read :: looks)) = settle (behind s calls) := by
  rw [behind_append]
  show unread (behind (read (behind s calls)).2 looks) = _
  rw [behind_of_looks onlyLooks, unread_read _ found]

end CharReader

open CharReader (Call ask behind Settled)

instance : CharReader Cursor where
  read := Cursor.read
  unread := Cursor.unread
  peek := Cursor.peek
  peek2 := Cursor.peek2
  settle c := { c with last := none }
  unread_read c found := by
    refine c.unread_read fun nothing => found ?_
    rw [Cursor.read_of_nil nothing]
  read_of_ended c ended := by
    cases ahead : c.ahead with
    | nil => rw [Cursor.read_of_nil ahead, ahead]
    | cons ch rest =>
        rw [Cursor.read_of_cons ahead] at ended
        cases ended
  settle_unread c := by
    cases last : c.last with
    | none => rw [Cursor.unread, last]; exact congrArg (Cursor.mk c.ahead c.pos) last.symm
    | some saved => rw [Cursor.unread, last]
  unread_settle c := rfl

/-! ## Counting bytes -/

/-- The characters of a text from a byte offset on.  There are none if the offset
is inside a character. -/
def charsFrom (text : String) (offset : String.Pos.Raw) : List Char :=
  if boundary : offset.IsValid text then
    (text.sliceFrom (text.pos offset boundary)).copy.toList
  else []

/-- Behind some text, the characters from there on are the rest. -/
theorem charsFrom_append (passed rest : String) :
    charsFrom (passed ++ rest) passed.rawEndPos = rest.toList := by
  have boundary : passed.rawEndPos.IsValid (passed ++ rest) :=
    String.Pos.Raw.isValid_iff_exists_append.mpr ⟨passed, rest, rfl, rfl⟩
  have splits : ((passed ++ rest).pos _ boundary).Splits passed rest := ⟨rfl, rfl⟩
  rw [charsFrom, dif_pos boundary, splits.copy_sliceFrom_eq]

section

variable {text : String} {offset : String.Pos.Raw} {pos : Position} {ch : Char} {cs : List Char}

/-- Where characters are left, the offset is the size of what stands before
them. -/
theorem exists_append_of_charsFrom (left : charsFrom text offset = ch :: cs) :
    ∃ passed, text = passed ++ String.ofList (ch :: cs) ∧ offset = passed.rawEndPos := by
  by_cases boundary : offset.IsValid text
  · obtain ⟨passed, rest, rfl, rfl⟩ := String.Pos.Raw.isValid_iff_exists_append.mp boundary
    rw [charsFrom_append] at left
    exact ⟨passed, by rw [← left, String.ofList_toList], rfl⟩
  · rw [charsFrom, dif_neg boundary] at left
    cases left

theorem append_ofList_cons (passed : String) (ch : Char) (cs : List Char) :
    passed ++ String.ofList (ch :: cs) = passed.push ch ++ String.ofList cs := by
  rw [String.push_eq_append, String.append_assoc, String.singleton_eq_ofList,
    ← String.ofList_append, List.singleton_append]

/-- The next offset is behind all bytes of the next character. -/
theorem charsFrom_add (left : charsFrom text offset = ch :: cs) :
    charsFrom text (offset + ch) = cs := by
  obtain ⟨passed, rfl, rfl⟩ := exists_append_of_charsFrom left
  rw [append_ofList_cons, ← String.rawEndPos_push, charsFrom_append, String.toList_ofList]

/-- A cursor that keeps the text whole, with the byte offset of the next
character. -/
structure ByteCursor where
  /-- The text. -/
  text : String
  /-- The number of bytes before the next character. -/
  offset : String.Pos.Raw
  /-- The position of the next character. -/
  pos : Position
  /-- The offset and the position before the read that `unread` takes back. -/
  last : Option (String.Pos.Raw × Position)

namespace ByteCursor

/-- A byte cursor at the start of a text. -/
def ofString (text : String) : ByteCursor := ⟨text, 0, .start, none⟩

/-- The characters not read yet. -/
def ahead (b : ByteCursor) : List Char := charsFrom b.text b.offset

/-- The next character, which stays ahead. -/
def peek (b : ByteCursor) : Option Char := b.ahead.head?

/-- The next two characters, which stay ahead. -/
def peek2 (b : ByteCursor) : Option Char × Option Char := (b.ahead.head?, b.ahead[1]?)

/-- Reads the next character: the offset moves by its bytes, and the position by
its place in the line. -/
def read (b : ByteCursor) : Option Char × ByteCursor :=
  match b.peek with
  | none => (none, { b with last := none })
  | some ch =>
    (some ch,
      { b with
        offset := b.offset + ch, pos := b.pos.advance ch, last := some (b.offset, b.pos) })

/-- Takes the latest read back, if there is one to take back. -/
def unread (b : ByteCursor) : ByteCursor :=
  match b.last with
  | none => b
  | some (offset, pos) => { b with offset, pos, last := none }

instance : CharReader ByteCursor where
  read := read
  unread := unread
  peek := peek
  peek2 := peek2
  settle b := { b with last := none }
  unread_read b found := by
    cases next : b.peek with
    | none => rw [read, next] at found; exact absurd rfl found
    | some ch => rw [read, next]; rfl
  read_of_ended b ended := by
    cases next : b.peek with
    | none => rw [read, next]
    | some ch => rw [read, next] at ended; cases ended
  settle_unread b := by
    cases last : b.last with
    | none =>
        rw [unread, last]
        exact congrArg (mk b.text b.offset b.pos) last.symm
    | some saved => rw [unread, last]
  unread_settle b := rfl

/-! ## What a byte cursor shows -/

/-- The cursor that has the same characters ahead. -/
def view (b : ByteCursor) : Cursor :=
  ⟨b.ahead, b.pos, b.last.map fun (offset, pos) => (charsFrom b.text offset, pos)⟩

theorem view_ofString (text : String) : (ofString text).view = .ofString text := by
  have whole := charsFrom_append "" text
  rw [String.empty_append] at whole
  exact congrArg (Cursor.mk · .start none) whole

/-- Reading a character and looking at the view of the cursor commute. -/
theorem read_view (b : ByteCursor) : b.view.read = (b.read.1, b.read.2.view) := by
  cases left : b.ahead with
  | nil =>
      have next : b.peek = none := by rw [peek, left, List.head?_nil]
      have ended : b.view.ahead = [] := left
      rw [Cursor.read, ended, read, next]
      exact congrArg (fun nothing => (none, Cursor.mk nothing b.pos none)) left.symm
  | cons ch cs =>
      have next : b.peek = some ch := by rw [peek, left, List.head?_cons]
      have more : b.view.ahead = ch :: cs := left
      -- Inside a character nothing would be ahead, so the offset is a boundary here.
      have behind : charsFrom b.text (b.offset + ch) = cs := charsFrom_add left
      rw [Cursor.read, more, read, next]
      simp only [view, ahead, behind, Option.map_some, Prod.mk.injEq, true_and]
      rw [← left, ahead]

/-- So do taking it back and looking. -/
theorem unread_view (b : ByteCursor) : b.view.unread = b.unread.view := by
  cases last : b.last with
  | none => simp [Cursor.unread, view, unread, last]
  | some saved => simp [Cursor.unread, view, unread, last, ahead]

/-- Both answer every call alike and go on alike. -/
theorem ask_view (b : ByteCursor) (call : Call) :
    ask b.view call = ((ask b call).1, (ask b call).2.view) := by
  cases call with
  | read =>
      show (CharReader.Answer.one b.view.read.1, b.view.read.2) = _
      rw [read_view]
      rfl
  | unread =>
      show (CharReader.Answer.done, b.view.unread) = _
      rw [unread_view]
      rfl
  | peek => rfl
  | peek2 => rfl

/-- So does any sequence of calls, by induction on it. -/
theorem behind_view (b : ByteCursor) (calls : List Call) :
    behind b.view calls = (behind b calls).view := by
  induction calls generalizing b with
  | nil => rfl
  | cons call calls ih =>
      show behind (ask b.view call).2 calls = (behind (ask b call).2 calls).view
      rw [ask_view, ih]

/-! ## The counters -/

/-- The offset and the position denote the place behind the same characters. -/
def Marks (text : String) (offset : String.Pos.Raw) (pos : Position) : Prop :=
  ∃ passed rest, text = passed ++ rest ∧ offset = passed.rawEndPos ∧ pos = .behind passed.toList

theorem Marks.advance (marks : Marks text offset pos) (left : charsFrom text offset = ch :: cs) :
    Marks text (offset + ch) (pos.advance ch) := by
  obtain ⟨passed, rest, rfl, rfl, rfl⟩ := marks
  rw [charsFrom_append] at left
  refine ⟨passed.push ch, String.ofList cs, ?_, String.rawEndPos_push.symm, ?_⟩
  · rw [← append_ofList_cons, ← left, String.ofList_toList]
  · rw [String.toList_push, Position.behind_snoc]

/-- The counters of a byte cursor, and those it has saved, denote places in the
text. -/
structure Sound (text : String) (b : ByteCursor) : Prop where
  /-- The text stays what it is. -/
  text_eq : b.text = text
  /-- The place of the next character. -/
  here : Marks text b.offset b.pos
  /-- The place to go back to. -/
  saved : ∀ mark ∈ b.last, Marks text mark.1 mark.2

theorem sound_ofString (text : String) : Sound text (ofString text) where
  text_eq := rfl
  here := ⟨"", text, String.empty_append.symm, rfl, rfl⟩
  saved _ absent := nomatch absent

/-- A read leaves the cursor sound. -/
theorem Sound.read {b : ByteCursor} (sound : Sound text b) : Sound text b.read.2 := by
  cases next : b.peek with
  | none =>
      rw [ByteCursor.read, next]
      exact ⟨sound.text_eq, sound.here, fun _ absent => nomatch absent⟩
  | some ch =>
      obtain ⟨cs, left⟩ := List.head?_eq_some_iff.mp next
      rw [ahead, sound.text_eq] at left
      rw [ByteCursor.read, next]
      refine ⟨sound.text_eq, sound.here.advance left, fun mark saved => ?_⟩
      -- The place to go back to is the one that was just left.
      obtain rfl := Option.some.inj saved
      exact sound.here

/-- So does taking one back, since the marks of the place before were kept. -/
theorem Sound.unread {b : ByteCursor} (sound : Sound text b) : Sound text b.unread := by
  cases last : b.last with
  | none =>
      rw [ByteCursor.unread, last]
      exact sound
  | some saved =>
      rw [ByteCursor.unread, last]
      exact ⟨sound.text_eq, sound.saved _ last, fun _ absent => nomatch absent⟩

/-- Every call leaves the counters sound. -/
theorem Sound.step {b : ByteCursor} (sound : Sound text b) (call : Call) :
    Sound text (ask b call).2 := by
  cases call with
  | read => exact sound.read
  | unread => exact sound.unread
  | peek | peek2 => exact sound

/-- So a cursor is sound behind any calls. -/
theorem Sound.run {b : ByteCursor} (sound : Sound text b) (calls : List Call) :
    Sound text (behind b calls) := by
  induction calls generalizing b with
  | nil => exact sound
  | cons call calls ih => exact ih (sound.step call)

end ByteCursor

end

/-! ## Places in a text -/

/-- A cursor, and the byte cursor that it shows, stand behind the characters that a
text starts with. -/
structure StandsBehind (text passed : String) (c : Cursor) (b : ByteCursor) : Prop where
  /-- What is ahead is the rest of the text. -/
  whole : text.toList = passed.toList ++ c.ahead
  /-- The position follows from the characters passed. -/
  pos_eq : c.pos = .behind passed.toList
  /-- The offset counts their bytes. -/
  offset_eq : b.offset = passed.rawEndPos
  /-- It is a boundary between characters, and not past the end of the text. -/
  boundary : b.offset.IsValid text
  /-- The two are the same but for the text. -/
  view_eq : b.view = c

theorem ByteCursor.Sound.exists_standsBehind {text : String} {b : ByteCursor}
    (sound : Sound text b) : ∃ passed, StandsBehind text passed b.view b := by
  obtain ⟨passed, rest, rfl, offset, pos⟩ := sound.here
  have left : b.ahead = rest.toList := by rw [ahead, sound.text_eq, offset, charsFrom_append]
  have boundary : b.offset.IsValid (passed ++ rest) :=
    String.Pos.Raw.isValid_iff_exists_append.mpr ⟨passed, rest, rfl, offset⟩
  refine ⟨passed, ?_, pos, offset, boundary, rfl⟩
  show _ = passed.toList ++ b.ahead
  rw [left, String.toList_append]

namespace StandsBehind

variable {text passed : String} {c : Cursor} {b : ByteCursor}

/-- What is ahead of the cursor is what the text has from its place on. -/
theorem getElem?_eq (stands : StandsBehind text passed c b) (n : Nat) :
    text.toList[passed.length + n]? = c.ahead[n]? := by
  rw [stands.whole, ← String.length_toList, List.getElem?_append_right (Nat.le_add_right _ n),
    Nat.add_sub_cancel_left]

theorem peek_eq (stands : StandsBehind text passed c b) :
    c.peek = text.toList[passed.length]? :=
  List.head?_eq_getElem?.trans (stands.getElem?_eq 0).symm

theorem peek2_eq (stands : StandsBehind text passed c b) :
    c.peek2 = (text.toList[passed.length]?, text.toList[passed.length + 1]?) := by
  rw [Cursor.peek2, stands.peek_eq, stands.getElem?_eq 1]

end StandsBehind

namespace Cursor

/-- From the start of a text, both cursors stay together. -/
theorem view_behind (text : String) (calls : List Call) :
    (behind (ByteCursor.ofString text) calls).view = behind (ofString text) calls := by
  rw [← ByteCursor.behind_view, ByteCursor.view_ofString]

theorem exists_standsBehind (text : String) (calls : List Call) :
    ∃ passed, StandsBehind text passed (behind (ofString text) calls)
      (behind (ByteCursor.ofString text) calls) := by
  rw [← view_behind]
  exact ((ByteCursor.sound_ofString text).run calls).exists_standsBehind

theorem read_behind (text : String) (calls : List Call) :
    (behind (ofString text) calls).read.1 = (behind (ByteCursor.ofString text) calls).read.1 := by
  rw [← view_behind, ByteCursor.read_view]

theorem settled_byteCursor {text : String} {calls : List Call}
    (settled : Settled (ofString text) calls) : Settled (ByteCursor.ofString text) calls := by
  cases settled with
  | start => exact .start
  | unread calls => exact .unread calls
  | ended ended => exact .ended ((read_behind text _).symm.trans ended)

/-- Behind any calls, a cursor stands behind some first part of the text, at the place
that this part alone determines.  It shows the characters that come next there, and
looking at them changes nothing.  A read that returned a character is taken back in
full, also across looks, and where there is no such read nothing is taken back.  All of
it holds of the cursor that counts bytes, which answers alike. -/
theorem behind_consistent (text : String) (calls : List Call) :
    let c := behind (ofString text) calls
    let b := behind (ByteCursor.ofString text) calls
    (∃ passed, StandsBehind text passed c b ∧
      c.peek = text.toList[passed.length]? ∧
      c.peek2 = (text.toList[passed.length]?, text.toList[passed.length + 1]?)) ∧
    (∀ call, (ask b call).1 = (ask c call).1) ∧
    (∀ call, call.looks = true → (ask c call).2 = c ∧ (ask b call).2 = b) ∧
    (∀ earlier looks, calls = earlier ++ .read :: looks →
      (∀ call ∈ looks, call.looks = true) → (behind (ofString text) earlier).read.1 ≠ none →
      c.unread = { behind (ofString text) earlier with last := none } ∧
      b.unread = { behind (ByteCursor.ofString text) earlier with last := none }) ∧
    (∀ earlier looks, calls = earlier ++ looks →
      (∀ call ∈ looks, call.looks = true) → Settled (ofString text) earlier →
      c.unread = c ∧ b.unread = b) := by
  intro c b
  obtain ⟨passed, stands⟩ := exists_standsBehind text calls
  have same : b.view = c := stands.view_eq
  refine ⟨⟨passed, stands, stands.peek_eq, stands.peek2_eq⟩, fun call => ?_, fun call looks => ?_,
    ?_, ?_⟩
  · rw [← same, ByteCursor.ask_view]
  · exact ⟨CharReader.ask_of_looks looks, CharReader.ask_of_looks looks⟩
  · rintro earlier looks rfl onlyLooks found
    -- What was read is told by the cursor, and the byte cursor has read the same.
    have found' : (behind (ByteCursor.ofString text) earlier).read.1 ≠ none := by
      rwa [← read_behind]
    exact ⟨CharReader.unread_behind_read found onlyLooks,
      CharReader.unread_behind_read found' onlyLooks⟩
  · rintro earlier looks rfl onlyLooks settled
    exact ⟨CharReader.unread_of_settled settled rfl onlyLooks,
      CharReader.unread_of_settled (settled_byteCursor settled) rfl onlyLooks⟩

/-- The line feed is taken back across looks, behind a character of two bytes, and
nothing behind that. -/
theorem behind_consistent_at_lineFeed :
    let calls : List Call := [.read, .read, .peek, .peek2]
    (behind (ofString "é\nx") calls).unread = ⟨['\n', 'x'], ⟨1, 2⟩, none⟩ ∧
      (behind (ByteCursor.ofString "é\nx") calls).unread =
        ⟨"é\nx", ⟨2⟩, ⟨1, 2⟩, none⟩ ∧
      (behind (ofString "é\nx") (calls ++ [.unread, .peek])).unread =
        behind (ofString "é\nx") (calls ++ [.unread, .peek]) := by
  intro calls
  obtain ⟨_, _, _, restores, _⟩ := behind_consistent "é\nx" calls
  obtain ⟨_, _, _, _, stays⟩ := behind_consistent "é\nx" (calls ++ [.unread, .peek])
  obtain ⟨back, back'⟩ := restores [.read] [.peek, .peek2] rfl (by decide) (by decide)
  obtain ⟨idle, _⟩ := stays (calls ++ [.unread]) [.peek] rfl (by decide) (.unread calls)
  exact ⟨back.trans (by decide), back'.trans (by rfl), idle⟩

end Cursor

end MetricLabels
