import Mathlib.Data.List.Forall2
import MetricLabels.Template.Parse

/-!
# Templates in both modes

The same text is read twice, once keeping and once dropping the backslash before
a dollar sign.  At every character the two runs stand at the same place with the
same memory, and only what they have put together so far differs (`RunsAgree`).  A
step keeps this (`RunsAgree.step`), so a stretch of text ends at the same place for
both (`readText_agree`), and so does every piece (`readNodes_agree`).  The main
statement is `parseWith_strip_replaces`.

`Replaced old new text text'` tells what becomes of a stretch without following
a reader: the text is cut at occurrences of `old`, and nothing but these is
changed.
-/

namespace MetricLabels.Template

/-! ## Replacement -/

/-- The second text is the first with every occurrence of `old` replaced by
`new`. -/
inductive Replaced (old new : List Char) : List Char → List Char → Prop where
  /-- Where nothing is left to replace, the text stays. -/
  | rest {s : List Char} : ¬old <:+: s → Replaced old new s s
  /-- An occurrence behind a stretch that has none. -/
  | next {s text text' : List Char} : ¬old <:+: s → Replaced old new text text' →
      Replaced old new (s ++ (old ++ text)) (s ++ (new ++ text'))

section

variable {s text text' : List Char} {c : Char}

/-- Only a dollar sign behind a backslash makes an escape where none was. -/
theorem not_escape_infix_concat (parted : c = '$' → s.getLast? ≠ some '\\')
    (none : ¬['\\', '$'] <:+: s) : ¬['\\', '$'] <:+: s ++ [c] := by
  rw [List.infix_concat_iff]
  rintro (⟨front, same⟩ | inside)
  · have cut : (front ++ ['\\']) ++ ['$'] = s ++ [c] := by rwa [List.append_assoc]
    obtain ⟨rfl, last⟩ := List.append_inj' cut rfl
    cases last
    exact parted rfl List.getLast?_concat
  · exact none inside

/-- A character behind is kept if it is not the dollar sign of an escape. -/
theorem Replaced.concat (replaced : Replaced ['\\', '$'] ['$'] text text')
    (parted : c = '$' → text.getLast? ≠ some '\\') :
    Replaced ['\\', '$'] ['$'] (text ++ [c]) (text' ++ [c]) := by
  induction replaced with
  | rest none => exact .rest (not_escape_infix_concat parted none)
  | @next s text text' none _ ih =>
      simp only [List.append_assoc]
      refine .next none (ih fun dollar backslash => parted dollar ?_)
      rw [← List.append_assoc, List.getLast?_append, backslash]
      rfl

/-- An escape behind is one more occurrence. -/
theorem Replaced.concat_escape (replaced : Replaced ['\\', '$'] ['$'] text text') :
    Replaced ['\\', '$'] ['$'] (text ++ ['\\', '$']) (text' ++ ['$']) := by
  induction replaced with
  | rest none => exact .next none (.rest (by simp))
  | next none _ ih =>
      simp only [List.append_assoc] at ih ⊢
      exact .next none ih

end

/-! ## Stretches of text -/

/-- What two runs hold at the same place.  The character before it is `prev`.  The
run that keeps backslashes has put `text` together and the other one `text'`, both
with the latest character first. -/
inductive RunsAgree : Option Char → List Char → List Char → Prop where
  /-- The backslash before is in both texts, though what follows may yet drop it. -/
  | backslash {text text' : List Char} :
      Replaced ['\\', '$'] ['$'] text.reverse text'.reverse →
      RunsAgree (some '\\') ('\\' :: text) ('\\' :: text')
  /-- No backslash is before. -/
  | other {prev : Option Char} {text text' : List Char} :
      prev ≠ some '\\' → text.head? = prev →
      Replaced ['\\', '$'] ['$'] text.reverse text'.reverse → RunsAgree prev text text'

namespace RunsAgree

variable {prev : Option Char} {text text' : List Char} {ch : Char}

theorem start : RunsAgree none [] [] :=
  .other (fun absent => nomatch absent) rfl (.rest (by simp))

theorem head?_eq (agree : RunsAgree prev text text') : text.head? = prev := by
  cases agree with
  | backslash => rfl
  | other _ same _ => exact same

/-- What the run that drops backslashes holds is the other text with its escapes
replaced. -/
theorem replaced (agree : RunsAgree prev text text') :
    Replaced ['\\', '$'] ['$'] text.reverse text'.reverse := by
  cases agree with
  | backslash replaced =>
      rw [List.reverse_cons, List.reverse_cons]
      exact replaced.concat fun dollar => nomatch dollar
  | other _ _ replaced => exact replaced

/-- A character that ends no escape is put behind both texts. -/
theorem push (agree : RunsAgree prev text text') (kept : ch = '$' → prev ≠ some '\\') :
    RunsAgree (some ch) (ch :: text) (ch :: text') := by
  by_cases backslash : ch = '\\'
  · rw [backslash]
    exact .backslash agree.replaced
  · refine .other (fun same => backslash (Option.some.inj same)) rfl ?_
    rw [List.reverse_cons, List.reverse_cons]
    exact agree.replaced.concat (by rwa [List.getLast?_reverse, agree.head?_eq])

/-- The dollar sign of an escape takes the place of the backslash in one of the texts. -/
theorem replace (agree : RunsAgree (some '\\') text text') :
    RunsAgree (some '$') ('$' :: text) ('$' :: text'.tail) := by
  cases agree with
  | @backslash text text' replaced =>
      refine .other (by decide) rfl ?_
      rw [List.tail_cons, List.reverse_cons, List.reverse_cons, List.reverse_cons,
        List.append_assoc]
      exact replaced.concat_escape
  | other escaped _ _ => exact absurd rfl escaped

/-- What both runs make of the next character. -/
theorem step (agree : RunsAgree prev text text') (ch : Char) :
    RunsAgree (some ch)
      (ch :: if ch = '$' ∧ prev = some '\\' ∧ EscapeMode.preserve = .strip then text.tail else text)
      (ch :: if ch = '$' ∧ prev = some '\\' ∧ EscapeMode.strip = .strip then text'.tail
        else text') := by
  rw [if_neg fun drops => nomatch drops.2.2]
  by_cases escape : ch = '$' ∧ prev = some '\\'
  · rw [if_pos ⟨escape.1, escape.2, rfl⟩]
    obtain ⟨rfl, rfl⟩ := escape
    exact agree.replace
  · rw [if_neg fun drops => escape ⟨drops.1, drops.2.1⟩]
    exact agree.push fun dollar backslash => escape ⟨dollar, backslash⟩

end RunsAgree

/-- Two runs that agree read on to the same place, and what they read is alike there. -/
theorem readText_agree {prev : Option Char} {text text' : List Char}
    (agree : RunsAgree prev text text') (c : Cursor) :
    (readText .preserve prev text c).2 = (readText .strip prev text' c).2 ∧
      Replaced ['\\', '$'] ['$'] (readText .preserve prev text c).1
        (readText .strip prev text' c).1 := by
  induction ahead : c.ahead generalizing prev text text' c with
  | nil =>
      rw [readText_of_nil ahead, readText_of_nil ahead]
      exact ⟨rfl, agree.replaced⟩
  | cons ch cs ih =>
      rw [readText_of_cons ahead, readText_of_cons ahead]
      split
      next => exact ⟨rfl, agree.replaced⟩
      next => exact ih (agree.step ch) _ rfl

/-! ## Nodes -/

/-- The second node is the first without the backslash before each dollar sign of
its text. -/
inductive Node.Unescaped : Node → Node → Prop where
  | text {content content' : String} :
      Replaced ['\\', '$'] ['$'] content.toList content'.toList →
      Unescaped (.text content) (.text content')
  | placeholder (name : String) : Unescaped (.placeholder name) (.placeholder name)

theorem Node.Unescaped.name?_eq {n n' : Node} (unescaped : n.Unescaped n') :
    n.name? = n'.name? := by
  cases unescaped with
  | text => rfl
  | placeholder => rfl

theorem filterMap_name?_eq {ns ns' : List Node} (unescaped : List.Forall₂ Node.Unescaped ns ns') :
    ns.filterMap Node.name? = ns'.filterMap Node.name? := by
  induction unescaped with
  | nil => rfl
  | cons first _ ih => rw [List.filterMap_cons, List.filterMap_cons, first.name?_eq, ih]

/-- Both runs fail with the same error, or both give nodes, which are alike. -/
inductive SameNodes : Except ParseError (List Node) → Except ParseError (List Node) → Prop where
  | failed (e : ParseError) : SameNodes (.error e) (.error e)
  | read {ns ns' : List Node} : List.Forall₂ Node.Unescaped ns ns' → SameNodes (.ok ns) (.ok ns')

/-- Pieces that are alike may stand in front. -/
theorem SameNodes.cons {r r' : Except ParseError (List Node)} {n n' : Node}
    (first : n.Unescaped n') (same : SameNodes r r') :
    SameNodes (r.map (n :: ·)) (r'.map (n' :: ·)) := by
  cases same with
  | failed e => exact .failed e
  | read rest => exact .read (.cons first rest)

/-- From the same place both runs read pieces that are alike, up to the end or to
the same failure.  Placeholders are read without a look at the mode. -/
theorem readNodes_agree (c : Cursor) :
    SameNodes (readNodes ⟨.preserve⟩ c) (readNodes ⟨.strip⟩ c) := by
  cases ahead : c.ahead with
  | nil =>
      rw [readNodes_of_nil ahead, readNodes_of_nil ahead]
      exact .read .nil
  | cons ch cs =>
      by_cases starts : ch = '$' ∧ cs.head?.any opensVariable = true
      · obtain ⟨rfl, opens⟩ := starts
        rw [readNodes_of_dollar ahead opens, readNodes_of_dollar ahead opens]
        cases read : readPlaceholder c.read.2 with
        | error e => exact .failed e
        | ok found =>
            have shorter := Nat.lt_of_le_of_lt (length_ahead_le_of_readPlaceholder read)
              (Cursor.length_ahead_read_lt (List.head?_eq_some_iff.mpr ⟨cs, ahead⟩))
            exact (readNodes_agree found.2).cons (.placeholder found.1)
      · have shorter := length_ahead_readText_lt .strip ahead starts
        obtain ⟨same, replaced⟩ := readText_agree .start c
        rw [readNodes_of_text ahead starts, readNodes_of_text ahead starts, same]
        refine (readNodes_agree _).cons (.text ?_)
        rwa [String.toList_ofList, String.toList_ofList]
termination_by c.ahead.length

/-! ## Templates -/

/-- A text is refused in both modes with the same error at the same place, or in
neither.  If it is read, the templates differ only in their text: where one of
them keeps the backslash before a dollar sign, the other has none.  So both have
the same variables. -/
theorem parseWith_strip_replaces (text : String) :
    (∃ e, parseWith ⟨.preserve⟩ text = .error e ∧ parseWith ⟨.strip⟩ text = .error e) ∨
      ∃ t u, parseWith ⟨.preserve⟩ text = .ok t ∧ parseWith ⟨.strip⟩ text = .ok u ∧
        List.Forall₂ Node.Unescaped t.nodes u.nodes ∧ t.variableNames = u.variableNames := by
  have same := readNodes_agree (.ofString text)
  rw [parseWith, parseWith]
  generalize readNodes ⟨.preserve⟩ (.ofString text) = r at same ⊢
  generalize readNodes ⟨.strip⟩ (.ofString text) = r' at same ⊢
  cases same with
  | failed e => exact .inl ⟨e, rfl, rfl⟩
  | read unescaped =>
      refine .inr ⟨_, _, rfl, rfl, unescaped, ?_⟩
      rw [variableNames, variableNames, filterMap_name?_eq unescaped]

/-- Of several backslashes before a dollar sign one is dropped. -/
example : parseWith ⟨.strip⟩ "\\\\\\$a$b" = .ok ⟨[.text "\\\\$a", .placeholder "b"]⟩ := by
  decide +kernel

/-! ## The text that is left -/

/-- The text without the backslash before each dollar sign. -/
def EscapeMode.unescape : List Char → List Char
  | [] => []
  | '\\' :: '$' :: cs => '$' :: unescape cs
  | c :: cs => c :: unescape cs

/-- The text that a stretch of the source stands for. -/
def EscapeMode.apply : EscapeMode → List Char → List Char
  | preserve, source => source
  | strip, source => unescape source

section

variable {s text text' : List Char}

/-- A character stays unless it is the backslash of an escape. -/
theorem unescape_cons {c : Char} {cs : List Char} (parted : c = '\\' → cs.head? ≠ some '$') :
    EscapeMode.unescape (c :: cs) = c :: EscapeMode.unescape cs := by
  rw [EscapeMode.unescape]
  rintro rest rfl rfl
  exact parted rfl rfl

/-- Only a backslash that something follows is dropped. -/
theorem getLast?_unescape (text : List Char) :
    (EscapeMode.unescape text).getLast? = text.getLast? := by
  fun_induction EscapeMode.unescape text with
  | case1 => rfl
  | case2 cs ih => rw [List.getLast?_cons_cons, List.getLast?_cons, List.getLast?_cons, ih]
  | case3 c cs _ ih => rw [List.getLast?_cons, List.getLast?_cons, ih]

/-- A backslash is dropped as before if no dollar sign comes to stand behind it. -/
theorem unescape_append (parted : text.getLast? = some '\\' → text'.head? ≠ some '$') :
    EscapeMode.unescape (text ++ text') =
      EscapeMode.unescape text ++ EscapeMode.unescape text' := by
  fun_induction EscapeMode.unescape text with
  | case1 => rfl
  | case2 cs ih =>
      refine congrArg ('$' :: ·) (ih fun last => parted ?_)
      rw [List.getLast?_cons_cons, List.getLast?_cons, last]
      rfl
  | case3 c cs other ih =>
      have alone : c = '\\' → (cs ++ text').head? ≠ some '$' := by
        rintro rfl
        cases cs with
        | nil => exact parted rfl
        | cons d cs =>
            exact fun dollar => other cs rfl (congrArg (· :: cs) (Option.some.inj dollar))
      rw [List.cons_append, unescape_cons alone]
      refine congrArg (c :: ·) (ih fun last => parted ?_)
      rw [List.getLast?_cons, last]
      rfl

theorem EscapeMode.apply_append (mode : EscapeMode)
    (parted : text.getLast? = some '\\' → text'.head? ≠ some '$') :
    mode.apply (text ++ text') = mode.apply text ++ mode.apply text' := by
  cases mode with
  | preserve => rfl
  | strip => exact unescape_append parted

/-- A text without escapes stays what it is. -/
theorem unescape_eq_self (none : ¬['\\', '$'] <:+: s) : EscapeMode.unescape s = s := by
  induction s with
  | nil => rfl
  | cons c cs ih =>
      rw [unescape_cons, ih fun inside => none (inside.trans (List.suffix_cons c cs).isInfix)]
      rintro rfl dollar
      obtain ⟨rest, rfl⟩ := List.head?_eq_some_iff.mp dollar
      exact none ⟨[], rest, rfl⟩

/-- A run that drops backslashes puts together the text without them. -/
theorem Replaced.eq_unescape (replaced : Replaced ['\\', '$'] ['$'] text text') :
    text' = EscapeMode.unescape text := by
  induction replaced with
  | rest none => exact (unescape_eq_self none).symm
  | @next s text text' none _ ih =>
      have parted : s.getLast? = some '\\' → (['\\', '$'] ++ text).head? ≠ some '$' :=
        fun _ same => nomatch same
      rw [unescape_append parted, unescape_eq_self none, ih]
      rfl

end

end MetricLabels.Template
