import Mathlib.Data.List.Nodup
import MetricLabels.Json.Library
import MetricLabels.Proofs.Json.Reading

/-!
# What is relied on of a JSON library

A library writes compact text and reads text that is compact (`LawfulLibrary`).
What that text is like is told symbol by symbol (`CompactText`), so a library is
free in how it escapes a character, as long as it does so for quotes, backslashes
and all characters below the space.  Libraries may refuse to read values that are
nested too deep (`Nested`), which no data here is.

The library that is written out keeps these laws.
-/

namespace MetricLabels.Json

/-- The value has no more than the given number of containers inside each other, and
no parts but whole numbers and texts in them. -/
inductive Nested : Nat → Json → Prop where
  | nat {depth : Nat} (n : Nat) : Nested depth (nat n)
  | str {depth : Nat} (text : String) : Nested depth (str text)
  | array {depth : Nat} {items : List Json} :
      (∀ v ∈ items, Nested depth v) → Nested (depth + 1) (.array items)
  | record {depth : Nat} {members : List (String × Json)} :
      (∀ m ∈ members, Nested depth m.2) → Nested (depth + 1) (record members)

/-- What is relied on of a library. -/
class LawfulLibrary [Library] : Prop where
  /-- Values are written as compact text.  The items of an array and the members of
  an object are in the order in which they are told, and no character of a string is
  left below the space. -/
  write_compact : ∀ {depth : Nat} {v : Json}, Nested depth v → CompactText v (Library.write v)
  /-- Compact text is read, the members of an object in the order of the text.  127
  containers may be inside each other. -/
  read?_compact : ∀ {v : Json} {text : String},
    Nested 127 v → CompactText v text → Library.read? text = some v
  /-- A number is a whole number if 64 bits can hold it. -/
  nat?_nat : ∀ {n : Nat}, n < UInt64.size → Library.nat? (nat n) = some n
  /-- A string has a text. -/
  text?_str : ∀ text : String, Library.text? (str text) = some text
  /-- A string may be a name. -/
  name?_str : ∀ name : String, Library.name? (str name) = some name
  /-- An array has items. -/
  items?_array : ∀ items : List Json, Library.items? (.array items) = some items
  /-- The members of an object are delivered in the order of the text, and all of
  them. -/
  entries?_record : ∀ pairs : List (String × String),
    Library.entries? (record (pairs.map fun (key, text) => (key, str text))) = some pairs
  /-- The fields of a record are found under their keys. -/
  fields?_record : ∀ {keys : List String} {members : List (String × Json)},
    members.map Prod.fst = keys → keys.Nodup →
      Library.fields? keys (record members) = some (members.map (some ·.2))
  /-- The type of a tagged value is told by its name. -/
  tagged?_record : ∀ {type content : String} (name : String) (v : Json), type ≠ content →
    Library.tagged? type content (record [(type, str name), (content, v)]) = some (name, v)

/-! ## Encoded values decoded -/

open LawfulLibrary

/-- A value is decoded from its text if it has the form. -/
theorem decode?_write [Library] [LawfulLibrary] {α : Type} {form? : Json → Option α} {v : Json}
    {a : α} (nested : Nested 127 v) (read : form? v = some a) :
    decode? form? (Library.write v) = some a := by
  rw [decode?, read?_compact nested (write_compact nested)]
  exact read

/-! ## The library that is written out -/

/-- A list is read back if each of its items is. -/
theorem mapM_of_inverse {α β : Type} {toForm : α → β} {ofForm? : β → Option α} {as : List α}
    (inverse : ∀ a ∈ as, ofForm? (toForm a) = some a) :
    (as.map toForm).mapM ofForm? = some as := by
  induction as with
  | nil => rfl
  | cons a as ih =>
      obtain ⟨first, others⟩ := List.forall_mem_cons.mp inverse
      rw [List.map_cons, List.mapM_cons, first, ih others]
      rfl

variable {members : List (String × Json)} {key type content : String} {v : Json} {n : Nat}

/-- Where no key occurs twice, every member is found under its key. -/
theorem lookup_of_mem (nodup : (members.map Prod.fst).Nodup) (member : (key, v) ∈ members) :
    members.lookup key = some v := by
  obtain ⟨before, behind, rfl⟩ := List.append_of_mem member
  refine List.lookup_eq_some_iff.mpr ⟨before, behind, rfl, fun earlier found => ?_⟩
  rw [List.map_append, List.map_cons] at nodup
  have apart := (List.nodup_append.mp nodup).2.2 earlier.1 (List.mem_map_of_mem found) key (.head _)
  simpa using apart.symm

theorem countP_le_one (nodup : (members.map Prod.fst).Nodup) (key : String) :
    members.countP (·.1 == key) ≤ 1 := by
  have count := List.nodup_iff_count_le_one.mp nodup key
  rwa [List.count, List.countP_map] at count

theorem members?_record (members : List (String × Json)) :
    (record members).members? = some members :=
  mapM_of_inverse fun _ _ => rfl

/-- The fields of a record are found under its keys. -/
theorem fields?_of_record {keys : List String} (same : members.map Prod.fst = keys)
    (nodup : keys.Nodup) : (record members).fields? keys = some (members.map (some ·.2)) := by
  subst same
  have once : ((members.map Prod.fst).all fun key => members.countP (·.1 == key) ≤ 1) = true :=
    List.all_eq_true.mpr fun key _ => decide_eq_true (countP_le_one nodup key)
  have found : (members.map Prod.fst).map (fun key => members.lookup key) =
      members.map (some ·.2) := by
    rw [List.map_map]
    exact List.map_congr_left fun m member => lookup_of_mem nodup member
  show ((record members).members? >>= _) = _
  rw [members?_record]
  show (if _ then _ else _) = _
  rw [if_pos once, found]

/-- The members of an object of texts are its entries. -/
theorem texts?_record (pairs : List (String × String)) :
    (record (pairs.map fun (key, text) => (key, str text))).texts? = some pairs := by
  rw [record, List.map_map]
  exact mapM_of_inverse fun _ _ => rfl

/-- A record of a type and a content is a tagged value. -/
theorem tagged?_of_record (name : String) (v : Json) (other : type ≠ content) :
    (record [(type, str name), (content, v)]).tagged? type content = some (name, v) := by
  have fields : (record [(type, str name), (content, v)]).fields? [type, content] = _ :=
    fields?_of_record rfl (by simp [other])
  show ((record [(type, str name), (content, v)]).fields? [type, content] >>= _) = _
  rw [fields]
  rfl

theorem word?_nat (small : n < UInt64.size) : (nat n).word? = some n := if_pos small

instance : LawfulLibrary where
  write_compact _ := compactText_compact _
  read?_compact _ := parse?_of_compactText
  nat?_nat := word?_nat
  text?_str _ := rfl
  name?_str _ := rfl
  items?_array _ := rfl
  entries?_record := texts?_record
  fields?_record := fields?_of_record
  tagged?_record := tagged?_of_record

end MetricLabels.Json
