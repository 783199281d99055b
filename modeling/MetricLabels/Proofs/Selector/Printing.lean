import MetricLabels.Proofs.Selector.WholeText
import MetricLabels.Proofs.Text.BareName
import MetricLabels.Proofs.Token.QuotedForms

/-!
# Conditions that can be written

A condition can be written if its name fits the pattern of label names, its value
has no line feed, and the dialect has its operator (`Condition.Writable`).  The
tokens of the written form spell it out (`exists_conditionWord`), so conditions
in braces are read back as they were (`parse_braced`).

The converse holds for whatever is read: a text spells out no other conditions
(`writable_of_parse`).
-/

namespace MetricLabels

/-- The kind of the token that an operator is written as. -/
def Operator.kind : Operator → Token.Kind
  | equal => .eq
  | notEqual => .neq
  | pattern => .eqRegexp
  | notPattern => .neqRegexp

/-- The written form of the condition spells it out in the dialect. -/
structure Condition.Writable (d : Selector.Dialect) (c : Condition) : Prop where
  allowed : d.operator? c.op.kind = some c.op
  named : NamePattern.labelName.accepts c.name = true
  plain : '\n' ∉ c.value.toList

/-- The condition has a name and an operator of the dialect, and any value. -/
structure Condition.Named (d : Selector.Dialect) (c : Condition) : Prop where
  allowed : d.operator? c.op.kind = some c.op
  named : NamePattern.labelName.accepts c.name = true

theorem Condition.writable_iff {d : Selector.Dialect} {c : Condition} :
    c.Writable d ↔ c.Named d ∧ '\n' ∉ c.value.toList :=
  ⟨fun w => ⟨⟨w.allowed, w.named⟩, w.plain⟩, fun ⟨n, plain⟩ => ⟨n.allowed, n.named, plain⟩⟩

namespace Selector

variable {d : Dialect} {c : Condition} {cs : List Condition} {text name value : String}
  {p : Position} {rest : List Char}

/-! ## The tokens of a written condition -/

/-- A name is one token if no word character stands behind it. -/
theorem exists_nameTile (named : NamePattern.labelName.accepts name = true)
    (stops : ∀ x ∈ rest.head?, isWord x = false) (p : Position) :
    ∃ token q, token.kind = .ident ∧ token.text = name ∧
      Tiles p (name.toList ++ rest) [token] q rest := by
  obtain ⟨c, cs, same, notNumeral, word⟩ := accepts_iff.mp named
  have spelled : Lexeme.Spells (.plain .ident name.toList) name.toList rest := by
    rw [same]
    exact .word notNumeral word stops
  exact ⟨_, _, rfl, String.ofList_toList, .single p spelled Token.Kind.noConfusion⟩

/-- So is a sign, if no tilde makes another of it. -/
theorem exists_signTile (kind : Token.Kind) {s : List Char} (sign : kind.sign? = some s)
    (stops : kind = .eq → rest.head? ≠ some '~') (p : Position) :
    ∃ token q, token.kind = kind ∧ Tiles p (s ++ rest) [token] q rest := by
  have more : kind ≠ .eof := by
    rintro rfl
    cases sign
  exact ⟨_, _, rfl, .single p (.sign kind sign stops) more⟩

/-- So is a value in quotes, if it has no line feed. -/
theorem exists_valueTile (plain : '\n' ∉ value.toList) (p : Position) (rest : List Char) :
    ∃ token q, token.kind = .string ∧ token.text = value ∧
      Tiles p ((Quoted.encode value).toList ++ rest) [token] q rest :=
  ⟨_, _, rfl, String.ofList_toList,
    .single p (Lexeme.spells_encode plain rest) Token.Kind.noConfusion⟩

theorem sign?_kind (op : Operator) : op.kind.sign? = some op.symbol.toList := by
  cases op <;> rfl

/-- No operator goes on with a name. -/
theorem exists_symbol_eq_cons (op : Operator) :
    ∃ c cs, op.symbol.toList = c :: cs ∧ isWord c = false := by
  cases op with
  | equal => exact ⟨'=', [], rfl, rfl⟩
  | notEqual => exact ⟨'!', ['='], rfl, rfl⟩
  | pattern => exact ⟨'=', ['~'], rfl, rfl⟩
  | notPattern => exact ⟨'!', ['~'], rfl, rfl⟩

theorem toList_format (c : Condition) (rest : List Char) :
    c.format.toList ++ rest =
      c.name.toList ++ (c.op.symbol.toList ++ ((Quoted.encode c.value).toList ++ rest)) := by
  rw [Condition.format, String.toList_append, String.toList_append, List.append_assoc,
    List.append_assoc]

/-- The tokens of the name and the operator. -/
theorem exists_headTiles (named : c.Named d) (p : Position) (rest : List Char) :
    ∃ name sign q, name.kind = .ident ∧ name.text = c.name ∧
      d.operator? sign.kind = some c.op ∧
      Tiles p (c.name.toList ++ (c.op.symbol.toList ++ ((Quoted.encode c.value).toList ++ rest)))
        [name, sign] q ((Quoted.encode c.value).toList ++ rest) := by
  obtain ⟨x, xs, symbol, notWord⟩ := exists_symbol_eq_cons c.op
  have nameStops : ∀ y ∈ (c.op.symbol.toList ++ ((Quoted.encode c.value).toList ++ rest)).head?,
      isWord y = false := by
    rw [symbol]
    exact fun _ same => Option.some.inj same ▸ notWord
  have signStops : ((Quoted.encode c.value).toList ++ rest).head? ≠ some '~' := by
    rw [Quoted.toList_encode]
    exact fun same => absurd (Option.some.inj same) (by decide)
  obtain ⟨name, q₁, isName, nameText, first⟩ := exists_nameTile named.named nameStops p
  obtain ⟨sign, q₂, signed, second⟩ := exists_signTile _ (sign?_kind c.op) (fun _ => signStops) q₁
  exact ⟨name, sign, q₂, isName, nameText, signed ▸ named.allowed, first.append second⟩

/-- The tokens of a written condition are a word for it. -/
theorem exists_conditionWord (writable : c.Writable d) (p : Position) (rest : List Char) :
    ∃ w q, ConditionWord d c w ∧ Tiles p (c.format.toList ++ rest) w q rest := by
  obtain ⟨named, plain⟩ := Condition.writable_iff.mp writable
  obtain ⟨name, sign, q₁, isName, nameText, operated, head⟩ := exists_headTiles named p rest
  obtain ⟨value, q₂, isValue, valueText, tail⟩ := exists_valueTile plain q₁ rest
  have word : ConditionWord d ⟨c.op, name.text, value.text⟩ [name, sign, value] :=
    .intro isName operated isValue
  rw [nameText, valueText] at word
  rw [toList_format]
  exact ⟨_, q₂, word, head.append tail⟩

theorem toList_intercalate_cons (cs : List Condition) (c c' : Condition) :
    (",".intercalate ((c :: c' :: cs).map Condition.format)).toList =
      c.format.toList ++ ([','] ++
        (",".intercalate ((c' :: cs).map Condition.format)).toList) := by
  rw [List.map_cons, List.map_cons, String.intercalate_cons_cons, String.toList_append,
    String.toList_append, List.append_assoc]
  rfl

/-- Conditions with commas between them are a word for the list. -/
theorem exists_listWord : ∀ {cs : List Condition}, cs ≠ [] → (∀ c ∈ cs, c.Writable d) →
    ∀ (p : Position) (rest : List Char), ∃ w q, ListWord d cs w ∧
      Tiles p ((",".intercalate (cs.map Condition.format)).toList ++ rest) w q rest
  | [], nonempty, _, _, _ => absurd rfl nonempty
  | [c], _, writable, p, rest => by
      obtain ⟨w, q, word, tiles⟩ := exists_conditionWord (writable c (.head _)) p rest
      rw [List.map_singleton, String.intercalate_singleton]
      exact ⟨w, q, .last word, tiles⟩
  | c :: c' :: cs, _, writable, p, rest => by
      rw [toList_intercalate_cons, List.append_assoc, List.append_assoc]
      obtain ⟨v, q₁, first, tiles₁⟩ := exists_conditionWord (writable c (.head _)) p _
      obtain ⟨comma, q₂, separated, tiles₂⟩ :=
        exists_signTile .comma rfl Token.Kind.noConfusion q₁
      obtain ⟨w, q₃, others, tiles₃⟩ := exists_listWord (List.cons_ne_nil c' cs)
        (fun c member => writable c (.tail _ member)) q₂ rest
      exact ⟨_, q₃, .more first separated others, tiles₁.append (tiles₂.append tiles₃)⟩

theorem toList_braced (items : List String) (rest : List Char) :
    (braced items).toList ++ rest =
      ['\x7b'] ++ ((",".intercalate items).toList ++ (['\x7d'] ++ rest)) := by
  rw [braced, String.toList_append, String.toList_append, List.append_assoc, List.append_assoc]
  rfl

/-- Conditions in braces are spelled out as they are written. -/
theorem exists_bracesWord (writable : ∀ c ∈ cs, c.Writable d) (p : Position)
    (rest : List Char) :
    ∃ w q, BracesWord d cs w ∧
      Tiles p ((braced (cs.map Condition.format)).toList ++ rest) w q rest := by
  rw [toList_braced]
  cases cs with
  | nil =>
      obtain ⟨left, q₁, opens, tiles₁⟩ := exists_signTile .lbrace rfl Token.Kind.noConfusion p
      obtain ⟨right, q₂, closes, tiles₂⟩ := exists_signTile .rbrace rfl Token.Kind.noConfusion q₁
      exact ⟨_, q₂, .empty opens closes, tiles₁.append tiles₂⟩
  | cons c cs =>
      obtain ⟨left, q₁, opens, tiles₁⟩ := exists_signTile .lbrace rfl Token.Kind.noConfusion p
      obtain ⟨w, q₂, list, tiles₂⟩ := exists_listWord (List.cons_ne_nil c cs) writable q₁ _
      obtain ⟨right, q₃, closes, tiles₃⟩ := exists_signTile .rbrace rfl Token.Kind.noConfusion q₂
      exact ⟨_, q₃, .list opens list closes, tiles₁.append (tiles₂.append tiles₃)⟩

/-! ## The tokens of a written selector -/

/-- A name alone is a word for the metric. -/
theorem exists_nameWord (named : NamePattern.labelName.accepts name = true)
    (stops : ∀ x ∈ rest.head?, isWord x = false) (p : Position) :
    ∃ w q, Word d [metric name] w ∧ Tiles p (name.toList ++ rest) w q rest := by
  obtain ⟨token, q, isName, same, tiles⟩ := exists_nameTile named stops p
  have word : Word d [metric token.text] [token] := .name isName
  rw [same] at word
  exact ⟨[token], q, word, tiles⟩

/-- A name with braces behind it is more than one token. -/
theorem exists_bothWord (named : NamePattern.labelName.accepts name = true)
    (writable : ∀ c ∈ cs, c.Writable d) (p : Position) (rest : List Char) :
    ∃ w q, Word d (metric name :: cs) w ∧ w.length ≠ 1 ∧
      Tiles p ((name ++ braced (cs.map Condition.format)).toList ++ rest) w q rest := by
  have stops : ∀ x ∈ ((braced (cs.map Condition.format)).toList ++ rest).head?,
      isWord x = false := by
    rw [toList_braced]
    exact fun _ same => Option.some.inj same ▸ rfl
  obtain ⟨token, q₁, isName, same, tiles₁⟩ := exists_nameTile named stops p
  obtain ⟨w, q₂, list, tiles₂⟩ := exists_bracesWord writable q₁ rest
  have word : Word d (metric token.text :: cs) (token :: w) := .both isName list
  rw [same] at word
  obtain ⟨left, tail, rfl, _, _⟩ := list.exists_cons
  refine ⟨token :: left :: tail, q₂, word, by simp, ?_⟩
  rw [String.toList_append, List.append_assoc]
  exact tiles₁.append tiles₂

/-! ## What is written is read back -/

/-- A text that a word tiles to the end is read as what the word spells out. -/
theorem parse_of_tiles {w : List Token} {q : Position} (word : Word d cs w)
    (tiles : Tiles .start text.toList w q []) : parse d text = .ok cs :=
  parse_eq_ok_iff_tokens.mpr ⟨w, word, .inl ⟨q, [], tiles, .nil⟩⟩

/-- Conditions in braces are read back as they were. -/
theorem parse_braced (writable : ∀ c ∈ cs, c.Writable d) :
    parse d (braced (cs.map Condition.format)) = .ok cs := by
  obtain ⟨w, q, word, tiles⟩ := exists_bracesWord writable .start []
  rw [List.append_nil] at tiles
  exact parse_of_tiles (.braces word) tiles

/-! ## What is read can be written -/

/-- The token has a text that a name or a value can have, if it is one. -/
structure Fits (token : Token) : Prop where
  name : token.kind = .ident → NamePattern.labelName.accepts token.text = true
  value : token.kind = .string → '\n' ∉ token.text.toList

/-- What is spelled as a name fits the pattern, and no value has a line feed. -/
theorem fits_of_spells {l : Lexeme} {blanks s : List Char} (spelled : l.Spells s rest) :
    Fits (l.tokenAt p blanks s) := by
  constructor
  · intro isName
    cases spelled with
    | word notNumeral word _ =>
        exact accepts_iff.mpr ⟨_, _, String.toList_ofList, notNumeral, word⟩
    | @quoted _ _ _ _ ending _ _ _ => cases ending <;> cases isName
    | sign kind sign _ =>
        obtain rfl : kind = .ident := isName
        cases sign
    | _ => cases isName
  · intro isValue
    show '\n' ∉ (String.ofList l.text).toList
    rw [String.toList_ofList]
    cases spelled with
    | @quoted _ _ _ _ ending _ written _ =>
        cases ending with
        | closed => exact written.newline_notMem
        | _ => cases isValue
    | sign => exact List.not_mem_nil
    | _ => cases isValue

theorem fits_of_tiles {w : List Token} {q : Position} {left : List Char}
    (tiles : Tiles p rest w q left) : ∀ token ∈ w, Fits token := by
  induction tiles with
  | nil => exact fun _ member => absurd member List.not_mem_nil
  | cons _ spelled _ _ ih =>
      intro token member
      rcases List.mem_cons.mp member with rfl | member
      · exact fits_of_spells spelled
      · exact ih token member

theorem operator?_kind {kind : Token.Kind} {op : Operator} (found : d.operator? kind = some op) :
    d.operator? op.kind = some op := by
  cases d <;> cases kind <;> cases found <;> rfl

/-- No name has a line feed. -/
theorem newline_notMem_of_accepts (named : NamePattern.labelName.accepts name = true) :
    '\n' ∉ name.toList := by
  obtain ⟨c, cs, same, _, word⟩ := accepts_iff.mp named
  rw [same]
  intro member
  cases word _ member

theorem accepts_metricName : NamePattern.labelName.accepts Label.metricName = true := rfl

/-- The name of a metric is a label like any other. -/
theorem writable_metric (named : NamePattern.labelName.accepts name = true) :
    (metric name).Writable d where
  allowed := by cases d <;> rfl
  named := accepts_metricName
  plain := newline_notMem_of_accepts named

section

variable {w : List Token}

theorem ConditionWord.writable (word : ConditionWord d c w) (fits : ∀ token ∈ w, Fits token) :
    c.Writable d := by
  cases word with
  | @intro name sign value op isName operated isValue =>
      exact ⟨operator?_kind operated, (fits name (by simp)).name isName,
        (fits value (by simp)).value isValue⟩

/-- A word spells out only conditions that can be written. -/
theorem ListWord.writable (word : ListWord d cs w) (fits : ∀ token ∈ w, Fits token) :
    ∀ c ∈ cs, c.Writable d := by
  induction word with
  | last first => exact List.forall_mem_singleton.mpr (first.writable fits)
  | more first _ _ ih =>
      obtain ⟨fits₁, fits₂⟩ := List.forall_mem_append.mp fits
      refine List.forall_mem_cons.mpr ⟨first.writable fits₁, ih ?_⟩
      exact fun token member => fits₂ token (.tail _ member)

theorem BracesWord.writable (word : BracesWord d cs w) (fits : ∀ token ∈ w, Fits token) :
    ∀ c ∈ cs, c.Writable d := by
  cases word with
  | empty => exact fun _ member => absurd member List.not_mem_nil
  | list _ word _ => exact word.writable fun token member => fits token (by simp [member])
  | trailing _ word _ _ => exact word.writable fun token member => fits token (by simp [member])

theorem Word.writable (word : Word d cs w) (fits : ∀ token ∈ w, Fits token) :
    ∀ c ∈ cs, c.Writable d := by
  cases word with
  | name named =>
      exact List.forall_mem_singleton.mpr (writable_metric ((fits _ (.head _)).name named))
  | braces word => exact word.writable fits
  | both named word =>
      obtain ⟨first, rest⟩ := List.forall_mem_cons.mp fits
      exact List.forall_mem_cons.mpr ⟨writable_metric (first.name named), word.writable rest⟩

end

/-- Whatever is read from a text can be written. -/
theorem writable_of_parse (parsed : parse d text = .ok cs) : ∀ c ∈ cs, c.Writable d := by
  obtain ⟨w, word, ⟨_, _, tiles, _⟩ | ⟨_, _, tiles, _⟩⟩ := parse_eq_ok_iff_tokens.mp parsed
  · exact word.writable (fits_of_tiles tiles)
  · exact word.writable (fits_of_tiles tiles)

end Selector

end MetricLabels
