import MetricLabels.CommandLine.Run
import MetricLabels.Proofs.Codec
import MetricLabels.Proofs.Json.Reading
import MetricLabels.Proofs.Token.Tiling

/-!
# Encoded values decoded

A JSON text is decoded in two steps, first to a JSON value and then to a value of the
library (`Json.decode?`).  Both undo what encoding does if the JSON library keeps the
laws, so a value is decoded from its text (`Json.decode?_write`).

The tokens of a text are written on lines.  A token may have line feeds in its text,
but its JSON text has none, so the lines are as many as the tokens
(`splitOn_onLines`).

The main statement is `decode?_encoded`.
-/

namespace MetricLabels

open Json (Library LawfulLibrary decode?)
open Json.LawfulLibrary

/-! ## Tokens on lines -/

/-- A text without line feeds on each line is a line of its own, and nothing stands
behind the last line feed. -/
theorem CommandLine.splitOn_onLines {texts : List String}
    (plain : ∀ text ∈ texts, '\n' ∉ text.toList) :
    (onLines texts).toList.splitOn '\n' = texts.map String.toList ++ [[]] := by
  induction texts with
  | nil => rfl
  | cons text texts ih =>
      obtain ⟨first, others⟩ := List.forall_mem_cons.mp plain
      rw [onLines, List.map_cons, String.join_cons, String.toList_append, String.toList_append,
        List.append_assoc]
      exact (List.splitOn_append_cons_self_of_not_mem first _).trans (congrArg _ (ih others))

/-- A word can hold the place of a token unless the text is longer than a word can
count. -/
theorem fits_of_mem_tokenize {text : String} (short : text.length + 1 < UInt64.size) :
    ∀ token ∈ tokenize text, token.pos.Fits := by
  intro token member
  obtain ⟨front, starts, place⟩ := (tiling_tokenize text).exists_place token member
  have length : front.length ≤ text.length := starts.length_le
  have line := Position.line_behind_le front
  have column := Position.column_behind_le front
  rw [place]
  exact ⟨by omega, by omega⟩

/-- Every label set, matcher and template is decoded from its JSON text, and so is
every token with a place that words can hold.  The command that writes the tokens of a
text writes a line for each of them, and the tokens are decoded from the lines unless
the text is longer than a word can count.  Any JSON library will do that keeps the
laws. -/
theorem decode?_encoded [Library] [LawfulLibrary] :
    (∀ s : LabelSet, decode? LabelSet.ofJson? (Library.write s.toJson) = some s) ∧
    (∀ m : Matcher, decode? Matcher.ofJson? (Library.write m.toJson) = some m) ∧
    (∀ t : Template, decode? Template.ofJson? (Library.write t.toJson) = some t) ∧
    (∀ t : Token, t.pos.Fits → decode? Token.ofJson? (Library.write t.toJson) = some t) ∧
    ∀ text : String, ∃ lines : List String,
      (CommandLine.Command.tokens.run text).stdout.toList.splitOn '\n' =
        lines.map String.toList ++ [[]] ∧
      lines.length = (tokenize text).length ∧
      (text.length + 1 < UInt64.size →
        lines.mapM (decode? Token.ofJson?) = some (tokenize text)) := by
  refine ⟨fun s => Json.decode?_write s.nested s.ofJson?_toJson,
    fun m => Json.decode?_write m.nested m.ofJson?_toJson,
    fun t => Json.decode?_write t.nested t.ofJson?_toJson,
    fun t fits => Json.decode?_write t.nested (t.ofJson?_toJson fits), fun text => ?_⟩
  refine ⟨(tokenize text).map fun t => Library.write t.toJson, ?_, List.length_map _,
    fun short => ?_⟩
  · refine CommandLine.splitOn_onLines (List.forall_mem_map.mpr fun t _ => ?_)
    have nested : Json.Nested 2 t.toJson := t.nested
    exact (write_compact nested).newline_notMem
  · exact Json.mapM_of_inverse fun t member =>
      Json.decode?_write t.nested (t.ofJson?_toJson (fits_of_mem_tokenize short t member))

/-- The text of a token has a line feed in it, and its JSON text has none. -/
theorem decode?_encoded_of_lineFeed :
    decode? Token.ofJson? (Token.toJson ⟨.badEscape, ⟨1, 2⟩, "\\\n"⟩).compact =
        some ⟨.badEscape, ⟨1, 2⟩, "\\\n"⟩ ∧
      ∃ lines : List String,
        (CommandLine.Command.tokens.run "\"\\\n").stdout.toList.splitOn '\n' =
          lines.map String.toList ++ [[]] ∧
        lines.mapM (decode? Token.ofJson?) = some (tokenize "\"\\\n") := by
  obtain ⟨_, _, _, tokens, output⟩ := decode?_encoded
  obtain ⟨lines, split, _, decoded⟩ := output "\"\\\n"
  exact ⟨tokens _ ⟨by decide, by decide⟩, lines, split, decoded (by decide)⟩

end MetricLabels
