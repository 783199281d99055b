import MetricLabels.Text.Numeral

/-!
# The longest numeral

`IsNumeral` is the shape of numerals, part by part, without a reader:

    numeral   = [ "-" ] digits [ "." digits ] [ ( "e" | "E" ) [ "+" | "-" ] digits ]

Of all numerals that a text starts with, `Numeral.first` is the longest
(`longest_first`), and no other is (`Longest.eq_first`).  What a numeral starts
with is a numeral, so one character behind it tells whether it is the longest
(`longest_append_iff`).

A part of a numeral ends where the next one starts, for no two parts start
alike.  So the parts of any numeral that a text starts with are found one after
the other (`prefix_part`), up to the last, which may be found longer.
-/

namespace MetricLabels.Numeral

/-! ## The shape of numerals -/

/-- A run of digits, which may be empty. -/
def IsDigits (s : List Char) : Prop := ∀ c ∈ s, c.isDigit = true

/-- Whether the character marks an exponent. -/
def isMark (c : Char) : Bool := c == 'e' || c == 'E'

/-- Whether the character is the sign of an exponent. -/
def isSign (c : Char) : Bool := c == '+' || c == '-'

/-- Nothing, or a character that satisfies `p`. -/
def IsOptional (p : Char → Bool) (s : List Char) : Prop := s = [] ∨ ∃ c, p c = true ∧ s = [c]

/-- Nothing, or a point with digits. -/
inductive IsFraction : List Char → Prop where
  | absent : IsFraction []
  | point {ds : List Char} : IsDigits ds → IsFraction ('.' :: ds)

/-- Nothing, or the mark of an exponent with an optional sign and digits. -/
inductive IsExponent : List Char → Prop where
  | absent : IsExponent []
  | marked {e : Char} {sign ds : List Char} :
      isMark e = true → IsOptional isSign sign → IsDigits ds → IsExponent (e :: (sign ++ ds))

/-- An optional minus sign, digits, an optional fraction and an optional
exponent. -/
inductive IsNumeral : List Char → Prop where
  | intro {sign whole frac exp : List Char} :
      IsOptional (· == '-') sign → IsDigits whole → IsFraction frac → IsExponent exp →
      IsNumeral (sign ++ (whole ++ (frac ++ exp)))

/-- Of the numerals that the text starts with, `s` is the longest. -/
structure Longest (s text : List Char) : Prop where
  numeral : IsNumeral s
  starts : s <+: text
  longest : ∀ s', IsNumeral s' → s' <+: text → s'.length ≤ s.length

variable {p : Char → Bool} {m x r ds s text : List Char} {c : Char}

/-! ## Where a part stops -/

/-- The text does not go on with a character that satisfies `p`. -/
def Stops (p : Char → Bool) (text : List Char) : Prop := ∀ c ∈ text.head?, p c = false

theorem stops_nil (p : Char → Bool) : Stops p [] := fun _ absent => nomatch absent

/-- A text starts with a character of the class or it does not. -/
theorem starts_or_stops (p : Char → Bool) (text : List Char) :
    (∃ c cs, text = c :: cs ∧ p c = true) ∨ Stops p text := by
  cases text with
  | nil => exact .inr (stops_nil p)
  | cons c cs =>
      cases member : p c with
      | true => exact .inl ⟨c, cs, rfl, member⟩
      | false => exact .inr fun _ same => Option.some.inj same ▸ member

theorem Stops.append (stops : Stops p x) (more : x ≠ []) (r : List Char) : Stops p (x ++ r) := by
  cases x with
  | nil => exact absurd rfl more
  | cons c x => exact stops

theorem IsDigits.stops (all : IsDigits ds) (other : ∀ c, c.isDigit = true → p c = false)
    (rest : Stops p x) : Stops p (ds ++ x) := by
  cases ds with
  | nil => exact rest
  | cons d ds => exact fun _ same => Option.some.inj same ▸ other d (all d (.head _))

/-- A fraction stops any class without the decimal point. -/
theorem IsFraction.stops (frac : IsFraction s) (point : p '.' = false) (rest : Stops p x) :
    Stops p (s ++ x) := by
  cases frac with
  | absent => exact rest
  | point _ => exact fun _ same => Option.some.inj same ▸ point

/-- An exponent stops any class without its mark. -/
theorem IsExponent.stops (exp : IsExponent x) (e : p 'e' = false) (capital : p 'E' = false) :
    Stops p x := by
  cases exp with
  | absent => exact stops_nil p
  | @marked c _ _ marked _ _ =>
      obtain rfl | rfl : c = 'e' ∨ c = 'E' := by simpa [isMark] using marked
      · exact fun _ same => Option.some.inj same ▸ e
      · exact fun _ same => Option.some.inj same ▸ capital

theorem ne_of_isDigit {d : Char} (digit : c.isDigit = true) (other : d.isDigit = false) :
    (c == d) = false := by
  rw [beq_eq_false_iff_ne]
  rintro rfl
  rw [other] at digit
  cases digit

theorem isSign_of_isDigit (digit : c.isDigit = true) : isSign c = false := by
  rw [isSign, ne_of_isDigit digit rfl, ne_of_isDigit digit rfl, Bool.or_false]

/-! ## The parts that are read -/

theorem mark_pos (member : p c = true) (cs : List Char) : mark p (c :: cs) = ([c], cs) := by
  simp [mark, member]

theorem mark_neg (stops : Stops p text) : mark p text = ([], text) := by
  cases text with
  | nil => rfl
  | cons c cs => simp [mark, stops c rfl]

theorem isOptional_mark (p : Char → Bool) (text : List Char) : IsOptional p (mark p text).1 := by
  rcases starts_or_stops p text with ⟨c, cs, rfl, member⟩ | stops
  · rw [mark_pos member]
    exact .inr ⟨c, member, rfl⟩
  · rw [mark_neg stops]
    exact .inl rfl

theorem isDigits_digits (text : List Char) : IsDigits (digits text).1 :=
  List.all_eq_true.mp List.all_takeWhile

theorem fraction_of_stops (stops : Stops (· == '.') text) : fraction text = ([], text) := by
  rw [fraction, mark_neg stops]

theorem exponent_of_isMark (marked : isMark c = true) (cs : List Char) :
    exponent (c :: cs) =
      (c :: ((mark isSign cs).1 ++ (digits (mark isSign cs).2).1),
        (digits (mark isSign cs).2).2) := by
  have found : mark (fun c => c == 'e' || c == 'E') (c :: cs) = ([c], cs) := mark_pos marked cs
  rw [exponent, found]
  rfl

theorem exponent_marked (marked : isMark c = true) (cs : List Char) :
    (exponent (c :: cs)).1 =
      c :: ((mark isSign cs).1 ++ (digits (mark isSign cs).2).1) := by
  rw [exponent_of_isMark marked]

theorem exponent_of_stops (stops : Stops isMark text) : exponent text = ([], text) := by
  have nothing : mark (fun c => c == 'e' || c == 'E') text = ([], text) := mark_neg stops
  rw [exponent, nothing]

/-- The numeral that is read, part by part. -/
theorem first_eq (text : List Char) :
    first text =
      let sign := mark (· == '-') text
      let whole := digits sign.2
      let frac := fraction whole.2
      sign.1 ++ (whole.1 ++ (frac.1 ++ (exponent frac.2).1)) := by
  simp [first, split]

/-! ## What is read is a numeral -/

theorem isFraction_fraction (text : List Char) : IsFraction (fraction text).1 := by
  rcases starts_or_stops (· == '.') text with ⟨c, cs, rfl, isPoint⟩ | stops
  · obtain rfl : c = '.' := by simpa using isPoint
    exact .point (isDigits_digits cs)
  · rw [fraction_of_stops stops]
    exact .absent

theorem isExponent_exponent (text : List Char) : IsExponent (exponent text).1 := by
  rcases starts_or_stops isMark text with ⟨c, cs, rfl, marked⟩ | stops
  · rw [exponent_marked marked]
    exact .marked marked (isOptional_mark isSign cs) (isDigits_digits _)
  · rw [exponent_of_stops stops]
    exact .absent

/-- What is read is a numeral. -/
theorem isNumeral_first (text : List Char) : IsNumeral (first text) := by
  rw [first_eq]
  exact .intro (isOptional_mark _ _) (isDigits_digits _) (isFraction_fraction _)
    (isExponent_exponent _)

/-! ## No numeral is longer -/

/-- A part `m` that ends where the rest `x` of the numeral starts is found, and
the rest behind it.  If nothing is left of the numeral, more may be found. -/
theorem prefix_part {f : List Char → List Char × List Char} {g : List Char → List Char}
    (part : m <+: (f (m ++ r)).1) (found : x ≠ [] → f (m ++ (x ++ r)) = (m, x ++ r))
    (rest : x <+: g (x ++ r)) :
    m ++ x <+: (f (m ++ (x ++ r))).1 ++ g (f (m ++ (x ++ r))).2 := by
  by_cases last : x = []
  · rw [last, List.append_nil, List.nil_append]
    exact part.trans (List.prefix_append _ _)
  · rw [found last]
    exact (List.prefix_append_right_inj m).mpr rest

theorem prefix_mark_append {g : List Char → List Char} (optional : IsOptional p m)
    (stops : Stops p x) (rest : x <+: g (x ++ r)) :
    m ++ x <+: (mark p (m ++ (x ++ r))).1 ++ g (mark p (m ++ (x ++ r))).2 := by
  rcases optional with rfl | ⟨c, member, rfl⟩
  · exact prefix_part List.nil_prefix (fun more => mark_neg (stops.append more r)) rest
  · have found (cs : List Char) : mark p ([c] ++ cs) = ([c], cs) := mark_pos member cs
    have whole : (mark p ([c] ++ r)).1 = [c] := congrArg Prod.fst (found r)
    exact prefix_part ⟨[], whole.symm⟩ (fun _ => found _) rest

/-- All digits that there are are read. -/
theorem prefix_digits (all : IsDigits ds) (r : List Char) : ds <+: (digits (ds ++ r)).1 := by
  rw [digits, List.takeWhile_append_of_pos all]
  exact List.prefix_append _ _

theorem digits_append_of_stops (all : IsDigits ds) (stops : Stops Char.isDigit r) :
    digits (ds ++ r) = (ds, r) := by
  rw [digits, List.takeWhile_append_of_pos all, List.dropWhile_append_of_pos all]
  cases r with
  | nil => simp
  | cons c r => simp [stops c rfl]

theorem prefix_digits_append {g : List Char → List Char} (all : IsDigits ds)
    (stops : Stops Char.isDigit x) (rest : x <+: g (x ++ r)) :
    ds ++ x <+: (digits (ds ++ (x ++ r))).1 ++ g (digits (ds ++ (x ++ r))).2 :=
  prefix_part (prefix_digits all r)
    (fun more => digits_append_of_stops all (stops.append more r)) rest

/-- An exponent is read to its end at least. -/
theorem prefix_exponent (exp : IsExponent x) (r : List Char) : x <+: (exponent (x ++ r)).1 := by
  cases exp with
  | absent => exact List.nil_prefix
  | @marked e sign ds marked optional all =>
      have stops : Stops isSign (ds ++ []) :=
        all.stops (fun _ => isSign_of_isDigit) (stops_nil isSign)
      rw [List.append_nil] at stops
      rw [List.cons_append, exponent_marked marked, List.append_assoc]
      refine (List.prefix_cons_inj e).mpr ?_
      exact prefix_mark_append (g := fun rest => (digits rest).1) optional stops
        (prefix_digits all r)

/-- So are a fraction and an exponent behind it. -/
theorem prefix_fraction_append (frac : IsFraction s) (exp : IsExponent x) (r : List Char) :
    s ++ x <+: (fraction (s ++ (x ++ r))).1 ++ (exponent (fraction (s ++ (x ++ r))).2).1 := by
  have rest := prefix_exponent exp r
  cases frac with
  | absent =>
      refine prefix_part (g := fun rest => (exponent rest).1) List.nil_prefix (fun more => ?_) rest
      exact fraction_of_stops ((exp.stops rfl rfl).append more r)
  | point all =>
      refine (List.prefix_cons_inj '.').mpr ?_
      exact prefix_digits_append (g := fun rest => (exponent rest).1) all (exp.stops rfl rfl) rest

/-- Any numeral that a text starts with is found, and perhaps more. -/
theorem prefix_first (numeral : IsNumeral s) (r : List Char) : s <+: first (s ++ r) := by
  cases numeral with
  | @intro sign whole frac exp signed all isFrac isExp =>
      have rest := prefix_digits_append (g := fun rest =>
        (fraction rest).1 ++ (exponent (fraction rest).2).1) all
        (isFrac.stops rfl (isExp.stops rfl rfl))
        (by simpa using prefix_fraction_append isFrac isExp r)
      rw [first_eq]
      simpa using prefix_mark_append (g := fun rest => (digits rest).1 ++
        ((fraction (digits rest).2).1 ++ (exponent (fraction (digits rest).2).2).1)) signed
        (all.stops (fun _ digit => ne_of_isDigit digit rfl)
          (isFrac.stops rfl (isExp.stops rfl rfl))) (by simpa using rest)

/-- What is read is the longest numeral that the text starts with. -/
theorem longest_first (text : List Char) : Longest (first text) text where
  numeral := isNumeral_first text
  starts := ⟨_, split_append text⟩
  longest := by
    rintro s numeral ⟨rest, rfl⟩
    exact (prefix_first numeral rest).length_le

/-- There is only one longest numeral, so that one is read. -/
theorem Longest.eq_first (longest : Longest s text) : s = first text := by
  have found := longest_first text
  have atMost := found.longest s longest.numeral longest.starts
  have atLeast := longest.longest _ found.numeral found.starts
  exact (List.prefix_of_prefix_length_le longest.starts found.starts atMost).eq_of_length
    (Nat.le_antisymm atMost atLeast)

/-! ## What may stand behind a numeral -/

/-- What one text and another behind it start with either starts the first, or
covers the first and goes on into the second. -/
theorem prefix_append_cases (starts : s <+: m ++ x) : s <+: m ∨ ∃ t, t <+: x ∧ s = m ++ t := by
  obtain ⟨r, same⟩ := starts
  rcases List.append_eq_append_iff.mp same with ⟨t, rfl, _⟩ | ⟨t, rfl, rest⟩
  · exact .inl (List.prefix_append _ _)
  · exact .inr ⟨t, ⟨r, rest.symm⟩, rfl⟩

theorem IsOptional.of_prefix (optional : IsOptional p m) (starts : s <+: m) : IsOptional p s := by
  cases s with
  | nil => exact .inl rfl
  | cons d s =>
      rcases optional with rfl | ⟨c, member, rfl⟩
      · cases List.prefix_nil.mp starts
      · obtain ⟨rfl, rest⟩ := List.cons_prefix_cons.mp starts
        rw [List.prefix_nil.mp rest]
        exact .inr ⟨d, member, rfl⟩

theorem IsDigits.of_prefix (all : IsDigits ds) (starts : s <+: ds) : IsDigits s :=
  fun c member => all c (starts.subset member)

theorem IsFraction.of_prefix (frac : IsFraction m) (starts : s <+: m) : IsFraction s := by
  cases s with
  | nil => exact .absent
  | cons c s =>
      cases frac with
      | absent => cases List.prefix_nil.mp starts
      | point all =>
          obtain ⟨rfl, rest⟩ := List.cons_prefix_cons.mp starts
          exact .point (all.of_prefix rest)

theorem IsExponent.of_prefix (exp : IsExponent m) (starts : s <+: m) : IsExponent s := by
  cases s with
  | nil => exact .absent
  | cons c s =>
      cases exp with
      | absent => cases List.prefix_nil.mp starts
      | @marked _ sign ds marked optional all =>
          obtain ⟨rfl, rest⟩ := List.cons_prefix_cons.mp starts
          rcases prefix_append_cases rest with inside | ⟨t, behind, rfl⟩
          · rw [← List.append_nil s]
            exact .marked marked (optional.of_prefix inside) (all.of_prefix List.nil_prefix)
          · exact .marked marked optional (all.of_prefix behind)

/-- What a numeral starts with is a numeral, for every run of digits may be
empty. -/
theorem IsNumeral.of_prefix (numeral : IsNumeral m) (starts : s <+: m) : IsNumeral s := by
  cases numeral with
  | @intro sign whole frac exp signed all isFrac isExp =>
      have noDigits : IsDigits [] := all.of_prefix List.nil_prefix
      -- The part in which the text ends is cut short, and no other follows.
      rcases prefix_append_cases starts with inside | ⟨t, behindSign, rfl⟩
      · simpa using IsNumeral.intro (signed.of_prefix inside) noDigits .absent .absent
      rcases prefix_append_cases behindSign with inside | ⟨u, behindWhole, rfl⟩
      · simpa using IsNumeral.intro signed (all.of_prefix inside) .absent .absent
      rcases prefix_append_cases behindWhole with inside | ⟨v, behindFraction, rfl⟩
      · simpa using IsNumeral.intro signed all (isFrac.of_prefix inside) .absent
      · exact .intro signed all isFrac (isExp.of_prefix behindFraction)

/-- Whether a numeral is the longest is seen from the one character behind it. -/
theorem longest_append_iff :
    Longest s (s ++ r) ↔ IsNumeral s ∧ ∀ c ∈ r.head?, ¬IsNumeral (s ++ [c]) := by
  constructor
  · intro longest
    refine ⟨longest.numeral, fun c next longer => ?_⟩
    obtain ⟨r, rfl⟩ := List.head?_eq_some_iff.mp next
    have atMost := longest.longest _ longer ⟨r, by simp⟩
    rw [List.length_append] at atMost
    exact absurd atMost (Nat.not_succ_le_self _)
  · rintro ⟨numeral, stops⟩
    refine ⟨numeral, List.prefix_append _ _, fun s' numeral' starts => ?_⟩
    rcases prefix_append_cases starts with inside | ⟨t, behind, rfl⟩
    · exact inside.length_le
    · cases t with
      | nil => exact Nat.le_of_eq (congrArg List.length (List.append_nil s))
      | cons c t =>
          obtain ⟨r, rfl⟩ := behind
          exact absurd (numeral'.of_prefix ⟨t, by simp⟩) (stops c rfl)

/-- Whether the character may stand in a numeral. -/
def isPart (c : Char) : Bool := c.isDigit || isSign c || c == '.' || isMark c

theorem IsDigits.isPart (all : IsDigits ds) : ∀ c ∈ ds, isPart c = true :=
  fun c member => by simp [Numeral.isPart, all c member]

/-- A numeral has no other characters than digits, signs, points and the marks of
exponents. -/
theorem IsNumeral.isPart (numeral : IsNumeral s) : ∀ c ∈ s, isPart c = true := by
  cases numeral with
  | @intro sign whole frac exp signed all isFrac isExp =>
      have inSign : ∀ c ∈ sign, Numeral.isPart c = true := by
        rcases signed with rfl | ⟨c, minus, rfl⟩
        · simp
        · simp_all [Numeral.isPart, isSign]
      have inFraction : ∀ c ∈ frac, Numeral.isPart c = true := by
        cases isFrac with
        | absent => simp
        | point all => exact List.forall_mem_cons.mpr ⟨rfl, all.isPart⟩
      have inExponent : ∀ c ∈ exp, Numeral.isPart c = true := by
        cases isExp with
        | absent => simp
        | @marked e sign ds marked optional all =>
            have first : Numeral.isPart e = true := by simp [Numeral.isPart, marked]
            rcases optional with rfl | ⟨c, signed, rfl⟩
            · exact List.forall_mem_cons.mpr ⟨first, all.isPart⟩
            · have second : Numeral.isPart c = true := by simp [Numeral.isPart, signed]
              exact List.forall_mem_cons.mpr ⟨first, List.forall_mem_cons.mpr ⟨second, all.isPart⟩⟩
      simp only [List.forall_mem_append]
      exact ⟨inSign, all.isPart, inFraction, inExponent⟩

end MetricLabels.Numeral
