import Mathlib.Data.List.Forall2
import MetricLabels.Proofs.Selector.RoundTrip
import MetricLabels.Proofs.Token.Lookahead

/-!
# Selectors one behind the other

A reader of selectors leaves what follows to others, so selectors that stand one
behind the other in a text can be read one after the other (`Spaced.times`).  A
braced selector ends with its brace.  A name that stands alone ends where no brace
opens behind it, and to see that its reader looks at the first token of the next
selector.  That token is not lost, since what counts is the stream of tokens and
not where the cursor is (`exists_read`).

The main statement is `times_read_spaced`: matchers and label sets are read back
from their texts with blanks between them.
-/

namespace MetricLabels

/-- Reads a number of things one after the other. -/
def TokenReader.times {α : Type} (x : TokenReader α) : Nat → TokenReader (List α)
  | 0 => pure []
  | n + 1 => do
      let a ← x
      return a :: (← x.times n)

/-! ## Blanks and braces -/

/-- Behind blanks, a brace opens. -/
def OpensBrace (text : List Char) : Prop :=
  ∃ blanks rest, AllBlank blanks ∧ text = blanks ++ '\x7b' :: rest

variable {p q : Position} {blanks s rest text trailing : List Char} {token : Token} {w : List Token}
  {c : Char}

instance (text : List Char) : Decidable (AllBlank text) :=
  List.decidableBAll (isBlank · = true) text

theorem AllBlank.not_opensBrace (blank : AllBlank text) : ¬OpensBrace text := by
  rintro ⟨blanks, rest, _, rfl⟩
  cases blank '\x7b' (List.mem_append_right _ (.head _))

/-- What comes behind the blanks decides. -/
theorem not_opensBrace_append (blank : AllBlank blanks) (notBlank : isBlank c = false)
    (other : c ≠ '\x7b') : ¬OpensBrace (blanks ++ c :: rest) := by
  rintro ⟨blanks', rest', blank', same⟩
  have stops : ∀ x ∈ (c :: rest).head?, isBlank x = false :=
    fun _ first => Option.some.inj first ▸ notBlank
  have stops' : ∀ x ∈ ('\x7b' :: rest').head?, isBlank x = false :=
    fun _ first => Option.some.inj first ▸ rfl
  obtain rfl := Lexeme.run_unique blank stops blank' stops' same
  exact other (List.cons.inj (List.append_cancel_left same)).1

theorem AllBlank.isWord (blank : AllBlank blanks) : ∀ x ∈ blanks, isWord x = false := by
  intro x member
  rw [Bool.eq_false_iff]
  intro word
  have notBlank := Lexeme.isBlank_of_isWord word
  rw [blank x member] at notBlank
  cases notBlank

/-! ## Tokens behind blanks -/

/-- Blanks before the first token belong to it. -/
theorem Tiles.behind_blanks (blank : AllBlank blanks)
    (tiles : Tiles (p.after blanks) text (token :: w) q rest) :
    Tiles p (blanks ++ text) (token :: w) q rest := by
  cases tiles with
  | @cons _ _ l blanks' s _ _ _ blank' spelled more others =>
      have place : l.tokenAt (p.after blanks) blanks' s = l.tokenAt p (blanks ++ blanks') s := by
        rw [Lexeme.tokenAt, Lexeme.tokenAt, List.append_assoc, Position.after_append p,
          Position.after_append]
      rw [← Position.after_append, ← List.append_assoc] at others
      rw [place, ← List.append_assoc]
      exact .cons (List.forall_mem_append.mpr ⟨blank, blank'⟩) spelled more others

theorem Tiles.after_eq (tiles : Tiles p text w q rest) : q.after rest = p.after text := by
  obtain ⟨consumed, rfl, rfl⟩ := tiles.exists_consumed
  rw [Position.after_append]

namespace Tokenizer

variable {t : Tokenizer}

/-- An opening brace that comes next stands ahead behind blanks. -/
theorem opensBrace_of_next (fresh : t.peeked = none) (opens : t.next.1.kind = .lbrace) :
    OpensBrace t.cursor.ahead := by
  rcases allBlank_or_spells t.cursor.ahead with blank | ⟨blanks, s, rest, l, blank, spelled, ahead⟩
  · have eof := (next_eq_eof_iff fresh).mpr (.inl blank)
    cases opens.symm.trans eof
  · rw [next_fresh fresh, Cursor.scan_spelled ahead blank spelled] at opens
    cases spelled with
    | @quoted _ _ _ _ ending _ _ _ => cases ending <;> cases opens
    | sign kind sign _ =>
        obtain rfl : kind = .lbrace := opens
        cases sign
        exact ⟨blanks, rest, blank, ahead⟩
    | _ => cases opens

/-- Where only blanks are left, the end comes again and again. -/
theorem stream_of_allBlank (fresh : t.peeked = none) (blank : AllBlank t.cursor.ahead) :
    t.stream = Stream'.const ⟨.eof, t.cursor.ending, ""⟩ := by
  have skipped := Cursor.skipWhile_isBlank (List.append_nil t.cursor.ahead).symm blank (by simp)
  have scanned : t.cursor.scan =
      (⟨.eof, t.cursor.ending, ""⟩, ⟨[], t.cursor.ending, none⟩) := by
    rw [Cursor.scan, skipped]
    rfl
  have last : Tokenizer.stream ⟨⟨[], t.cursor.ending, none⟩, t.peeked, t.done⟩ =
      Stream'.const ⟨.eof, t.cursor.ending, ""⟩ := stream_of_ahead_eq_nil fresh rfl
  rw [stream_eq_cons, next_fresh fresh, scanned]
  exact (congrArg (Stream'.cons _) last).trans (Stream'.const_eq _).symm

end Tokenizer

/-! ## One selector after the other -/

namespace Selector

open TokenReader Tokenizer

variable {d : Dialect} {cs : List Condition} {css : List (List Condition)} {t u : Tokenizer}

/-- In front of `rest`, the characters `s` are a selector that ends there. -/
def Stands (d : Dialect) (cs : List Condition) (s rest : List Char) : Prop :=
  ∀ p, ∃ w q, Word d cs w ∧ Tiles p (s ++ rest) w q rest ∧ (w.length = 1 → ¬OpensBrace rest)

/-- The text is made up of the selectors, with blanks between and around them. -/
inductive Spaced (d : Dialect) : List (List Condition) → List Char → Prop where
  | blank {blanks : List Char} : AllBlank blanks → Spaced d [] blanks
  | cons {blanks s rest : List Char} {cs : List Condition} {css : List (List Condition)} :
      AllBlank blanks → Stands d cs s rest → Spaced d css rest →
      Spaced d (cs :: css) (blanks ++ (s ++ rest))

/-- A tokenizer that has looked ahead reads the selector that comes next.  What it
then gives is what a tokenizer that has not would give behind the selector. -/
theorem exists_read (stands : Stands d cs s rest) (blank : AllBlank blanks)
    (fresh : t.peeked = none) (ahead : t.cursor.ahead = blanks ++ (s ++ rest))
    (same : u.stream = t.stream) :
    ∃ t' v : Tokenizer, read d u = (.ok cs, v) ∧ v.stream = t'.stream ∧ t'.peeked = none ∧
      t'.cursor.ahead = rest ∧ t'.cursor.ending = t.cursor.ending := by
  obtain ⟨w, q, word, tiles, alone⟩ := stands (t.cursor.pos.after blanks)
  obtain ⟨token, w, rfl⟩ := word.exists_cons
  have tiles := tiles.behind_blanks blank
  obtain ⟨t', taken, fresh', pos, left⟩ := takes_of_tiles tiles fresh rfl ahead
  have cut : u.stream = (token :: w) ++ₛ t'.stream := same.trans taken.stream_eq
  have single : (token :: w).length = 1 → t'.stream.head.kind ≠ .lbrace :=
    fun one opens => alone one (left ▸ opensBrace_of_next fresh' opens)
  obtain ⟨v, read, stream⟩ := read_eq_ok_iff_stream.mpr ⟨_, word, cut, single⟩
  refine ⟨t', v, read, stream, fresh', left, ?_⟩
  rw [Cursor.ending, pos, left, tiles.after_eq, Cursor.ending, ahead]

/-- As many selectors as there are in a text are read one after the other, and then
comes the end. -/
theorem Spaced.times {α : Type} (spaced : Spaced d css text) (f : List Condition → α) :
    ∀ {t u : Tokenizer}, t.peeked = none → t.cursor.ahead = text → u.stream = t.stream →
      ∃ v, TokenReader.times (do return f (← read d)) css.length u = (.ok (css.map f), v) ∧
        v.stream = Stream'.const ⟨.eof, t.cursor.ending, ""⟩ := by
  induction spaced with
  | blank blank =>
      intro t u fresh ahead same
      exact ⟨u, rfl, same.trans (stream_of_allBlank fresh (ahead ▸ blank))⟩
  | cons blank stands _ ih =>
      intro t u fresh ahead same
      obtain ⟨t', v, read, stream, fresh', left, ending⟩ :=
        exists_read stands blank fresh ahead same
      obtain ⟨v', times, last⟩ := ih fresh' left stream
      refine ⟨v', bind_eq_ok_iff.mpr ⟨_, v, bind_pure_eq_ok_iff.mpr ⟨_, read, rfl⟩, ?_⟩, ?_⟩
      · exact bind_pure_eq_ok_iff.mpr ⟨_, times, rfl⟩
      · rw [last, ending]

/-- Selectors with blanks around them are read one after the other, up to the end. -/
theorem Spaced.times_ofString {α : Type} {text : String} (spaced : Spaced d css text.toList)
    (f : List Condition → α) :
    ∃ v, TokenReader.times (do return f (← read d)) css.length (ofString text) =
        (.ok (css.map f), v) ∧
      v.stream = Stream'.const ⟨.eof, .behind text.toList, ""⟩ := by
  have ending : (ofString text).cursor.ending = .behind text.toList := Position.start_after _
  rw [← ending]
  exact spaced.times f rfl rfl rfl

/-! ## Printed selectors -/

/-- The texts of some things one behind the other, each behind blanks of its own, and
blanks behind the last. -/
def spaced {α : Type} (format : α → String) (entries : List (List Char × α))
    (trailing : List Char) : String :=
  String.ofList (entries.flatMap (fun e => e.1 ++ (format e.2).toList) ++ trailing)

section

variable {α : Type} {format : α → String}

theorem toList_spaced_nil (trailing : List Char) :
    (spaced format [] trailing).toList = trailing :=
  String.toList_ofList

theorem toList_spaced_cons (e : List Char × α) (entries : List (List Char × α))
    (trailing : List Char) :
    (spaced format (e :: entries) trailing).toList =
      e.1 ++ ((format e.2).toList ++ (spaced format entries trailing).toList) := by
  rw [spaced, spaced, String.toList_ofList, String.toList_ofList, List.flatMap_cons,
    List.append_assoc, List.append_assoc]

end

end Selector

namespace Matcher

open Selector

/-- Printed matchers spell themselves out, whatever blanks stand between them. -/
theorem spaced_format (blank : AllBlank trailing) : ∀ {entries : List (List Char × Matcher)},
    (∀ e ∈ entries, AllBlank e.1 ∧ ∀ c ∈ e.2.conditions, c.Writable .matchers) →
    Spaced .matchers (entries.map fun e => e.2.conditions)
      (spaced format entries trailing).toList
  | [], _ => by
      rw [List.map_nil, toList_spaced_nil]
      exact .blank blank
  | e :: entries, all => by
      obtain ⟨⟨before, writable⟩, all⟩ := List.forall_mem_cons.mp all
      rw [List.map_cons, toList_spaced_cons]
      refine .cons before (fun p => ?_) (spaced_format blank all)
      obtain ⟨w, q, word, tiles⟩ := exists_bracesWord writable p _
      exact ⟨w, q, .braces word, tiles, fun one => absurd one word.length_ne_one⟩

end Matcher

namespace LabelSet

open Selector

variable {e : List Char × LabelSet} {entries : List (List Char × LabelSet)}

/-- The second set can be printed behind the first. -/
structure PrintableBehind (e e' : List Char × LabelSet) : Prop where
  /-- There are blanks between them. -/
  gap : e'.1 ≠ []
  /-- No brace opens behind a name. -/
  parted : isBareName e.2.format = true → e'.2.format.toList.head? ≠ some '\x7b'

/-- The set has labels, and all of them can be written. -/
structure Printable (s : LabelSet) : Prop where
  labeled : s.labels ≠ []
  writable : ∀ l ∈ s.labels, l.condition.Writable .labels

/-- Labels in braces start with the brace. -/
theorem exists_bracedLabels_eq_cons {ls : List Label} (labeled : ls ≠ []) :
    ∃ cs, (bracedLabels ls).toList = '\x7b' :: cs := by
  rw [bracedLabels, if_neg (by simpa using labeled)]
  exact ⟨_, (List.append_nil _).symm.trans (toList_braced _ [])⟩

/-- The text of a set with labels does not start with a blank. -/
theorem exists_format_eq_cons {s : LabelSet} (labeled : s.metricFirst ≠ []) :
    ∃ c cs, s.format.toList = c :: cs ∧ isBlank c = false := by
  rcases s.format_cases with braced | ⟨name, named, _, format⟩
  · rw [braced]
    obtain ⟨cs, same⟩ := exists_bracedLabels_eq_cons labeled
    exact ⟨_, cs, same, rfl⟩
  · obtain ⟨c, cs, same, _, word⟩ := accepts_iff.mp named
    rw [format, String.toList_append, same]
    exact ⟨c, _, rfl, Lexeme.isBlank_of_isWord (word c (.head _))⟩

/-- No word goes on into what is printed behind it. -/
theorem stops_spaced (blank : AllBlank trailing) (chain : (e :: entries).IsChain PrintableBehind)
    (before : ∀ e ∈ entries, AllBlank e.1) :
    ∀ x ∈ (spaced format entries trailing).toList.head?, isWord x = false := by
  cases entries with
  | nil =>
      rw [toList_spaced_nil]
      exact fun x first => blank.isWord x (List.mem_of_mem_head? first)
  | cons e' entries =>
      obtain ⟨b, bs, same⟩ := List.exists_cons_of_ne_nil (List.isChain_cons_cons.mp chain).1.gap
      have blanks := before e' (.head _)
      rw [toList_spaced_cons, same]
      rw [same] at blanks
      exact fun x first => blanks.isWord x (Option.some.inj first ▸ .head _)

/-- No brace opens behind a name. -/
theorem not_opensBrace_spaced (blank : AllBlank trailing)
    (chain : (e :: entries).IsChain PrintableBehind)
    (all : ∀ e ∈ entries, AllBlank e.1 ∧ e.2.Printable) (bare : isBareName e.2.format = true) :
    ¬OpensBrace (spaced format entries trailing).toList := by
  cases entries with
  | nil =>
      rw [toList_spaced_nil]
      exact blank.not_opensBrace
  | cons e' entries =>
      obtain ⟨before, printable⟩ := all e' (.head _)
      obtain ⟨c, cs, same, notBlank⟩ :=
        exists_format_eq_cons (metricFirst_ne_nil printable.labeled)
      have other := (List.isChain_cons_cons.mp chain).1.parted bare
      rw [same] at other
      rw [toList_spaced_cons, same]
      exact not_opensBrace_append before notBlank fun brace => other (congrArg some brace)

/-- Printed sets spell themselves out if each can be printed behind the one before. -/
theorem spaced_format (blank : AllBlank trailing) : ∀ {entries : List (List Char × LabelSet)},
    (∀ e ∈ entries, AllBlank e.1 ∧ e.2.Printable) → entries.IsChain PrintableBehind →
    Spaced .labels (entries.map fun e => e.2.metricFirst.map Label.condition)
      (spaced format entries trailing).toList
  | [], _, _ => by
      rw [List.map_nil, toList_spaced_nil]
      exact .blank blank
  | e :: entries, all, chain => by
      obtain ⟨⟨before, printable⟩, all⟩ := List.forall_mem_cons.mp all
      rw [List.map_cons, toList_spaced_cons]
      refine .cons before (fun p => ?_) (spaced_format blank all chain.of_cons)
      obtain ⟨w, q, word, tiles, bare⟩ :=
        exists_formatWord (metricFirst_ne_nil printable.labeled)
          (writable_metricFirst printable.writable)
          (stops_spaced blank chain fun e member => (all e member).1) p
      refine ⟨w, q, word, tiles, fun one => not_opensBrace_spaced blank chain all ?_⟩
      rw [isBareName_eq_accepts]
      exact bare one

end LabelSet

namespace Selector

open Tokenizer

/-- Matchers and label sets are read one after the other from their texts with blanks
around them, and then comes the end.  Between matchers there may be no blanks at all.
A label set has to have labels and a blank in front of the next one, and if it is
printed as a name, the next one must not be printed with a brace first.  Its labels
may come back in another order. -/
theorem times_read_spaced {trailing : List Char} (blank : AllBlank trailing) :
    (∀ entries : List (List Char × Matcher),
      (∀ e ∈ entries, AllBlank e.1 ∧ ∀ c ∈ e.2.conditions,
        NamePattern.labelName.accepts c.name = true ∧ '\n' ∉ c.value.toList) →
      ∃ t, Matcher.read.times entries.length (ofString (spaced Matcher.format entries trailing)) =
          (.ok (entries.map Prod.snd), t) ∧
        t.stream = Stream'.const
          ⟨.eof, .behind (spaced Matcher.format entries trailing).toList, ""⟩) ∧
    (∀ entries : List (List Char × LabelSet),
      (∀ e ∈ entries, AllBlank e.1 ∧ e.2.isEmpty = false ∧ ∀ l ∈ e.2.labels,
        NamePattern.labelName.accepts l.name = true ∧ '\n' ∉ l.value.toList) →
      entries.IsChain LabelSet.PrintableBehind →
      ∃ sets t,
        LabelSet.read.times entries.length (ofString (spaced LabelSet.format entries trailing)) =
          (.ok sets, t) ∧
        List.Forall₂ (fun s e => (s == e.2) = true) sets entries ∧
        t.stream = Stream'.const
          ⟨.eof, .behind (spaced LabelSet.format entries trailing).toList, ""⟩) := by
  constructor
  · intro entries all
    simp only [← Condition.writable_matchers_iff] at all
    obtain ⟨t, read, stream⟩ := (Matcher.spaced_format blank all).times_ofString Matcher.mk
    rw [List.length_map, List.map_map] at read
    exact ⟨t, read, stream⟩
  · intro entries all chain
    simp only [← Label.writable_condition_iff] at all
    have printable : ∀ e ∈ entries, AllBlank e.1 ∧ e.2.Printable := fun e member =>
      have ⟨before, labeled, writable⟩ := all e member
      ⟨before, List.isEmpty_eq_false_iff.mp labeled, writable⟩
    obtain ⟨t, read, stream⟩ :=
      (LabelSet.spaced_format blank printable chain).times_ofString LabelSet.ofConditions
    rw [List.length_map, List.map_map] at read
    refine ⟨_, t, read, ?_, stream⟩
    rw [List.forall₂_map_left_iff]
    exact List.forall₂_same.mpr fun e _ => LabelSet.beq_iff_perm.mpr
      (LabelSet.labels_ofConditions_metricFirst e.2 ▸ e.2.perm_metricFirst)

/-- Two matchers with nothing between them, and a name before a name with braces. -/
theorem times_read_spaced_of_two :
    (∃ t, Matcher.read.times 2 (ofString "\x7b\x7d\x7ba=~\"x\"\x7d\n") =
        (.ok [⟨[]⟩, ⟨[⟨.pattern, "a", "x"⟩]⟩], t) ∧
      t.stream = Stream'.const ⟨.eof, ⟨2, 1⟩, ""⟩) ∧
    ∃ sets t, LabelSet.read.times 2 (ofString "up cpu\x7bhost=\"a\"\x7d\n") = (.ok sets, t) ∧
      List.Forall₂ (fun s e => (s == e.2) = true) sets
        [([], .ofList [("__name__", "up")]),
          ([' '], .ofList [("host", "a"), ("__name__", "cpu")])] ∧
      t.stream = Stream'.const ⟨.eof, ⟨2, 1⟩, ""⟩ := by
  have blank : AllBlank ['\n'] := by decide
  obtain ⟨matchers, sets⟩ := times_read_spaced blank
  constructor
  · exact matchers [([], ⟨[]⟩), ([], ⟨[⟨.pattern, "a", "x"⟩]⟩)] (by decide)
  · refine sets [([], .ofList [("__name__", "up")]),
      ([' '], .ofList [("host", "a"), ("__name__", "cpu")])] (by decide) ?_
    exact .cons_cons ⟨by decide, by decide⟩ (.singleton _)

end Selector

end MetricLabels
