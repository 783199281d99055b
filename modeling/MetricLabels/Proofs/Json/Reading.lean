import MetricLabels.Json.Printer
import MetricLabels.Json.Reader
import MetricLabels.Proofs.Json.Symbols

/-!
# JSON values read back

A reader that expects a value takes all symbols of a value and then has it
(`takes_symbols`).  It takes the items of an array and the members of an object one
after the other, with what it has read so far on the stack.

In the symbols of a value no two numbers meet (`isChain_symbols`), so every value is
read back from each of its compact texts (`parse?_of_compactText`), and these are
single lines (`CompactText.newline_notMem`).
-/

namespace MetricLabels.Json

/-! ## What stands between numbers -/

section

variable {ss ss' : List Symbol} {s : Symbol}

theorem isChain_cons (other : s.isNumber = false) (behind : ss.IsChain Symbol.CanFollow) :
    (s :: ss).IsChain Symbol.CanFollow := by
  refine List.isChain_cons.mpr ⟨fun s' _ number => ?_, behind⟩
  cases other.symm.trans number

/-- Symbols with something between them that is no number are a chain if both
sides are. -/
theorem isChain_append_cons (before : ss.IsChain Symbol.CanFollow) (other : s.isNumber = false)
    (behind : ss'.IsChain Symbol.CanFollow) : (ss ++ s :: ss').IsChain Symbol.CanFollow := by
  refine List.isChain_append.mpr ⟨before, isChain_cons other behind, ?_⟩
  exact fun _ _ _ first _ => Option.some.inj first ▸ other

end

mutual

/-- No two numbers meet in a value. -/
theorem isChain_symbols : ∀ v : Json, v.symbols.IsChain Symbol.CanFollow
  | null | bool _ | number _ | string _ => .singleton _
  | array items => isChain_cons rfl (isChain_append_cons (isChain_itemSymbols items) rfl .nil)
  | object members =>
      isChain_cons rfl (isChain_append_cons (isChain_memberSymbols members) rfl .nil)

theorem isChain_itemSymbols : ∀ items : List Json, (itemSymbols items).IsChain Symbol.CanFollow
  | [] => .nil
  | [v] => isChain_symbols v
  | v :: w :: vs => isChain_append_cons (isChain_symbols v) rfl (isChain_itemSymbols (w :: vs))

theorem isChain_memberSymbols :
    ∀ members : List (Option String × Json), (memberSymbols members).IsChain Symbol.CanFollow
  | [] => .nil
  | [(_, v)] => isChain_cons rfl (isChain_cons rfl (isChain_symbols v))
  | (_, v) :: m :: ms =>
      isChain_cons rfl (isChain_cons rfl
        (isChain_append_cons (isChain_symbols v) rfl (isChain_memberSymbols (m :: ms))))

end

/-! ## What a reader takes -/

namespace Reader

/-- The reader takes the symbols, and is another one behind them. -/
def Takes (r : Reader) (ss : List Symbol) (r' : Reader) : Prop := ss.foldlM step r = some r'

variable {r r' r'' : Reader} {s : Symbol} {ss ss' : List Symbol} {stack : List Frame}

/-- One symbol, and then the others. -/
theorem Takes.cons (first : step r s = some r') (others : Takes r' ss r'') :
    Takes r (s :: ss) r'' := by
  rw [Takes, List.foldlM_cons, first]
  exact others

theorem Takes.single (first : step r s = some r') : Takes r [s] r' := .cons first rfl

/-- Symbols are taken one behind the other. -/
theorem Takes.append (first : Takes r ss r') (second : Takes r' ss' r'') :
    Takes r (ss ++ ss') r'' := by
  rw [Takes, List.foldlM_append, first]
  exact second

/-- The first item of an array is a value like any other. -/
theorem Takes.firstItem (nonempty : ss ≠ []) (takes : Takes ⟨.array [] :: stack, .value⟩ ss r) :
    Takes ⟨stack, .firstItem⟩ ss r := by
  cases ss with
  | nil => exact absurd rfl nonempty
  | cons s ss =>
      cases s with
      | closeArray => cases takes
      | _ => exact takes

/-- The first key of an object is a key like any other. -/
theorem Takes.firstKey (nonempty : ss ≠ []) (takes : Takes ⟨stack, .key []⟩ ss r) :
    Takes ⟨stack, .firstKey⟩ ss r := by
  cases ss with
  | nil => exact absurd rfl nonempty
  | cons s ss =>
      cases s with
      | closeObject => cases takes
      | _ => exact takes

end Reader

open Reader

mutual

/-- A reader that expects a value takes all of its symbols. -/
theorem takes_symbols : ∀ (v : Json) (stack : List Frame),
    Takes ⟨stack, .value⟩ v.symbols ⟨stack, .separator v⟩
  | null, _ | bool _, _ | number _, _ | string _, _ => .single rfl
  | array [], _ => .cons rfl (.single rfl)
  | array (v :: vs), stack => by
      have items := takes_itemSymbols (v :: vs) (List.cons_ne_nil v vs) stack []
      exact .cons rfl (items.firstItem (by simp))
  | object [], _ => .cons rfl (.single rfl)
  | object (m :: ms), stack => by
      have members := takes_memberSymbols (m :: ms) (List.cons_ne_nil m ms) stack []
      exact .cons rfl (members.firstKey (by simp))

/-- The items of an array that follow those that are there, up to its end. -/
theorem takes_itemSymbols : ∀ (vs : List Json), vs ≠ [] → ∀ (stack : List Frame)
    (items : List Json),
    Takes ⟨.array items :: stack, .value⟩ (itemSymbols vs ++ [.closeArray])
      ⟨stack, .separator (.array (items.reverse ++ vs))⟩
  | [], nonempty, _, _ => absurd rfl nonempty
  | [v], _, stack, items => by
      rw [← List.reverse_cons]
      exact (takes_symbols v _).append (.single rfl)
  | v :: w :: vs, _, stack, items => by
      have others := takes_itemSymbols (w :: vs) (List.cons_ne_nil w vs) stack (v :: items)
      rw [List.reverse_cons, List.append_assoc, List.singleton_append] at others
      rw [itemSymbols, List.append_assoc]
      exact (takes_symbols v _).append (.cons rfl others)

/-- The members of an object that follow those that are there, up to its end. -/
theorem takes_memberSymbols : ∀ (ms : List (Option String × Json)), ms ≠ [] →
    ∀ (stack : List Frame) (members : List (Option String × Json)),
    Takes ⟨stack, .key members⟩ (memberSymbols ms ++ [.closeObject])
      ⟨stack, .separator (.object (members.reverse ++ ms))⟩
  | [], nonempty, _, _ => absurd rfl nonempty
  | [(key, v)], _, stack, members => by
      rw [← List.reverse_cons]
      exact .cons rfl (.cons rfl ((takes_symbols v _).append (.single rfl)))
  | (key, v) :: m :: ms, _, stack, members => by
      have others :=
        takes_memberSymbols (m :: ms) (List.cons_ne_nil m ms) stack ((key, v) :: members)
      rw [List.reverse_cons, List.append_assoc, List.singleton_append] at others
      rw [memberSymbols, List.append_assoc]
      exact .cons rfl (.cons rfl ((takes_symbols v _).append (.cons rfl others)))

end

/-! ## The text of a value -/

/-- The text is made of the symbols of the value, with nothing between them. -/
def CompactText (v : Json) (text : String) : Prop :=
  ∃ parts, List.Forall₂ Symbol.Spells v.symbols parts ∧ text.toList = parts.flatten

/-- What is written here is compact text. -/
theorem compactText_compact (v : Json) : CompactText v v.compact := by
  refine ⟨v.symbols.map Symbol.text, ?_, ?_⟩
  · rw [List.forall₂_map_right_iff, List.forall₂_same]
    exact fun s _ => s.spells_text
  · rw [compact, String.toList_ofList, List.flatMap_def]

/-- A compact text is a single line, whatever strings are in the value. -/
theorem CompactText.newline_notMem {v : Json} {text : String} (written : CompactText v text) :
    '\n' ∉ text.toList := by
  obtain ⟨parts, spelled, whole⟩ := written
  rw [whole]
  intro member
  exact absurd (Symbol.space_le_flatten spelled _ member) (by decide)

/-- Every value is read back from its compact texts. -/
theorem parse?_of_compactText {v : Json} {text : String} (written : CompactText v text) :
    parse? text = some v := by
  obtain ⟨parts, spelled, whole⟩ := written
  have symbols : Symbol.all? text.toList = some v.symbols := by
    rw [whole]
    exact Symbol.all?_flatten spelled (isChain_symbols v)
  rw [parse?, symbols]
  show (v.symbols.foldlM Reader.step .start >>= _) = _
  rw [Reader.start, takes_symbols v []]
  rfl

end MetricLabels.Json
