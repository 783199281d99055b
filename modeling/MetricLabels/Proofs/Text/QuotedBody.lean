import MetricLabels.Text.Quoted

/-!
# Bodies of quoted text

`Written quote body text` says that `body` spells `text` between the given
quotes, with or without escapes.  The reader cuts a text behind such a body, and
what it reports as the ending is what stands there (`exists_written`).  Where a
body and an ending stand, it finds these (`scan_append`).

What is written with the escapes of `escape` is spelled by them, unless it has a
line feed (`written_escape`).  No body spells a line feed
(`Written.newline_notMem`).
-/

namespace MetricLabels.Quoted

/-- Between the given quotes, the body spells the text. -/
inductive Written (quote : Char) : List Char → List Char → Prop where
  | nil : Written quote [] []
  | plain {c : Char} {body text : List Char} :
      c ≠ quote → c ≠ '\n' → c ≠ '\\' → Written quote body text →
      Written quote (c :: body) (c :: text)
  | escaped {c : Char} {body text : List Char} :
      isEscapable c = true → Written quote body text →
      Written quote ('\\' :: c :: body) (c :: text)

namespace Ending

/-- The characters that the ending itself takes up. -/
def source (quote : Char) : Ending → List Char
  | closed => [quote]
  | unterminated => []
  | newline => ['\n']
  | badEscape none => ['\\']
  | badEscape (some c) => ['\\', c]

/-- Whether the ending may stand before the given text. -/
def Leaves : Ending → List Char → Prop
  | closed, _ => True
  | unterminated, rest => rest = []
  | newline, _ => True
  | badEscape none, rest => rest = []
  | badEscape (some c), _ => isEscapable c = false

theorem length_source (quote : Char) (e : Ending) : (e.source quote).length = e.width := by
  cases e with
  | badEscape next => cases next <;> rfl
  | _ => rfl

end Ending

variable {quote : Char} {body text rest : List Char} {ending : Ending}

/-! ## The reader finds the body -/

theorem ne_newline_of_isQuote (quoted : isQuote quote = true) : quote ≠ '\n' := by
  rintro rfl
  cases quoted

theorem ne_backslash_of_isQuote (quoted : isQuote quote = true) : quote ≠ '\\' := by
  rintro rfl
  cases quoted

theorem scan_closed (quote : Char) (cs : List Char) :
    scan quote (quote :: cs) = ⟨[], 0, .closed⟩ := by
  rw [scan.eq_def]
  exact if_pos rfl

theorem scan_newline (quoted : isQuote quote = true) (cs : List Char) :
    scan quote ('\n' :: cs) = ⟨[], 0, .newline⟩ := by
  rw [scan.eq_def]
  exact (if_neg (ne_newline_of_isQuote quoted).symm).trans (if_pos rfl)

theorem scan_backslash (quoted : isQuote quote = true) (c : Char) (cs : List Char) :
    scan quote ('\\' :: c :: cs) =
      if isEscapable c then (scan quote cs).cons c 2 else ⟨[], 0, .badEscape (some c)⟩ := by
  rw [scan.eq_def]
  exact (if_neg (ne_backslash_of_isQuote quoted).symm).trans
    ((if_neg (by decide)).trans (if_pos rfl))

theorem scan_plain {c : Char} (notQuote : c ≠ quote) (notNewline : c ≠ '\n')
    (notBackslash : c ≠ '\\') (cs : List Char) :
    scan quote (c :: cs) = (scan quote cs).cons c 1 := by
  rw [scan.eq_def]
  exact (if_neg notQuote).trans ((if_neg notNewline).trans (if_neg notBackslash))

/-- An ending is scanned as what it is. -/
theorem scan_source (quoted : isQuote quote = true) (leaves : ending.Leaves rest) :
    scan quote (ending.source quote ++ rest) = ⟨[], 0, ending⟩ := by
  cases ending with
  | closed => exact scan_closed quote rest
  | unterminated =>
      obtain rfl : rest = [] := leaves
      rfl
  | newline => exact scan_newline quoted rest
  | badEscape next =>
      cases next with
      | none =>
          obtain rfl : rest = [] := leaves
          show scan quote ['\\'] = _
          rw [scan.eq_def]
          exact (if_neg (ne_backslash_of_isQuote quoted).symm).trans
            ((if_neg (by decide)).trans (if_pos rfl))
      | some c =>
          have bad : isEscapable c = false := leaves
          exact (scan_backslash quoted c rest).trans (if_neg (by simp [bad]))

/-- A body that is written out is scanned to its ending, by induction on how it is
written. -/
theorem scan_append (quoted : isQuote quote = true) (written : Written quote body text)
    (leaves : ending.Leaves rest) :
    scan quote (body ++ (ending.source quote ++ rest)) = ⟨text, body.length, ending⟩ := by
  induction written with
  | nil => exact scan_source quoted leaves
  | plain notQuote notNewline notBackslash _ ih =>
      rw [List.cons_append, scan_plain notQuote notNewline notBackslash, ih]
      rfl
  | escaped escapable _ ih =>
      rw [List.cons_append, List.cons_append, scan_backslash quoted, if_pos escapable, ih]
      rfl

/-- What the reader passes over is a body that spells the text, and behind it
stands the ending. -/
theorem exists_written (quote : Char) (cs : List Char) :
    ∃ body rest, cs = body ++ ((scan quote cs).ending.source quote ++ rest) ∧
      Written quote body (scan quote cs).text ∧ (scan quote cs).width = body.length ∧
      (scan quote cs).ending.Leaves rest := by
  fun_induction scan quote cs with
  | case1 => exact ⟨[], [], rfl, .nil, rfl, rfl⟩
  | case2 cs => exact ⟨[], cs, rfl, .nil, rfl, trivial⟩
  | case3 cs => exact ⟨[], cs, rfl, .nil, rfl, trivial⟩
  | case4 => exact ⟨[], [], rfl, .nil, rfl, rfl⟩
  | case5 c cs escapable _ _ ih =>
      obtain ⟨body, rest, cut, written, width, leaves⟩ := ih
      refine ⟨'\\' :: c :: body, rest, congrArg ('\\' :: c :: ·) cut, .escaped escapable written,
        ?_, leaves⟩
      rw [Body.cons, width]
      rfl
  | case6 c cs bad _ _ => exact ⟨[], cs, rfl, .nil, rfl, Bool.eq_false_iff.mpr bad⟩
  | case7 c cs notQuote notNewline notBackslash ih =>
      obtain ⟨body, rest, cut, written, width, leaves⟩ := ih
      refine ⟨c :: body, rest, congrArg (c :: ·) cut,
        .plain notQuote notNewline notBackslash written, ?_, leaves⟩
      rw [Body.cons, width]
      rfl

/-! ## Line feeds -/

/-- No text that is written has a line feed, which would break it off. -/
theorem Written.newline_notMem (written : Written quote body text) : '\n' ∉ text := by
  induction written with
  | nil => exact List.not_mem_nil
  | plain _ notNewline _ _ ih => exact List.not_mem_cons_of_ne_of_not_mem notNewline.symm ih
  | escaped escapable _ ih =>
      refine List.not_mem_cons_of_ne_of_not_mem ?_ ih
      rintro rfl
      cases escapable

theorem toList_encode (value : String) :
    (encode value).toList = '"' :: (escape value.toList ++ ['"']) := by
  rw [encode, String.toList_ofList]
  rfl

/-- The writer's escapes neither add line feeds nor remove them. -/
theorem newline_mem_escape_iff : '\n' ∈ escape text ↔ '\n' ∈ text := by
  induction text with
  | nil => rfl
  | cons c text ih =>
      rw [escape, List.flatMap_cons, List.mem_append, List.mem_cons]
      split <;> simp [← ih, escape]

/-- The writer's escapes spell the text. -/
theorem written_escape (plain : '\n' ∉ text) : Written '"' (escape text) text := by
  induction text with
  | nil => exact .nil
  | cons c text ih =>
      have written := ih fun member => plain (.tail _ member)
      by_cases special : c = '"' ∨ c = '\\'
      · have escapable : isEscapable c = true := by
          rcases special with rfl | rfl
          · rfl
          · rfl
        rw [escape, List.flatMap_cons, if_pos special]
        exact .escaped escapable written
      · obtain ⟨notQuote, notBackslash⟩ := not_or.mp special
        rw [escape, List.flatMap_cons, if_neg special]
        exact .plain notQuote (fun same => plain (same ▸ .head _)) notBackslash written

end MetricLabels.Quoted
