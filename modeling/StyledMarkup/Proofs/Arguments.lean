import Mathlib.Data.List.Forall2
import StyledMarkup.Directive.Arguments
import StyledMarkup.Proofs.Value

/-!
# Joined arguments

Splitting undoes joining by commas exactly if the splitter meets no comma outside quotes and
parentheses in any of the arguments, and leaves nothing open at the end of any but the last. Blanks
around the arguments make no difference.

A backslash has no meaning to the splitter. So in an argument that is written between double quotes
it reads the written text as if the backslashes were not there: a double quote of the text closes
the quotes, and what follows it stands outside them until the next one.
-/

namespace StyledMarkup

theorem Text.count_trim {c : Char} (hc : isBlank c = false) (t : Text) :
    (trim t).count c = t.count c := by
  obtain ⟨before, after, heq, hbefore, hafter⟩ := exists_trim_eq t
  have hzero : ∀ {blanks : Text}, (∀ d ∈ blanks, isBlank d = true) → blanks.count c = 0 := by
    intro blanks hblanks
    exact List.count_eq_zero.mpr (not_mem_of_blanks hblanks hc)
  conv_rhs => rw [heq]
  rw [List.count_append, List.count_append, hzero hbefore, hzero hafter, Nat.zero_add, Nat.add_zero]

namespace Arguments

namespace Nesting

/-- What is open after a text. -/
def through (n : Nesting) (t : Text) : Nesting :=
  t.foldl next n

/-- No comma of the text separates two arguments. -/
def isWhole (n : Nesting) : Text → Bool
  | [] => true
  | c :: t => !(n.isOutside && c == ',') && isWhole (n.next c) t

variable {n : Nesting} {t u : Text}

theorem isOutside_iff : n.isOutside = true ↔ n = {} := by
  obtain ⟨quote, depth⟩ := n
  simp [isOutside]

theorem through_append : n.through (t ++ u) = (n.through t).through u :=
  List.foldl_append

theorem isWhole_append : n.isWhole (t ++ u) = (n.isWhole t && (n.through t).isWhole u) := by
  induction t generalizing n with
  | nil => rfl
  | cons c t ih =>
    rw [List.cons_append, isWhole, ih, isWhole, Bool.and_assoc]
    rfl

/-! ### Characters without a meaning to the splitter -/

/-- The character opens nothing and closes nothing. -/
def isIdle (d : Char) : Bool :=
  !"\"'()".toList.contains d

section Idle

variable {d : Char} (hd : isIdle d = true)
include hd

theorem ne_of_isIdle : d ≠ '"' ∧ d ≠ '\'' ∧ d ≠ '(' ∧ d ≠ ')' := by
  simpa [isIdle, and_assoc] using hd

theorem next_of_isIdle (h : n.quote ≠ some d) : n.next d = n := by
  unfold next
  split
  · next q hq =>
    have hne : d ≠ q := fun heq ↦ h (heq ▸ hq)
    rw [if_neg hne]
  · simp [ne_of_isIdle hd]

theorem quote_next_ne (h : n.quote ≠ some d) (c : Char) : (n.next c).quote ≠ some d := by
  unfold next
  split
  · split
    · exact Option.some_ne_none _ ∘ Eq.symm
    · exact h
  · next hnone =>
    split
    · next hc =>
      rw [ne_eq, Option.some.injEq]
      rintro rfl
      obtain ⟨hdouble, hsingle, -⟩ := ne_of_isIdle hd
      exact hc.elim hdouble hsingle
    · split
      · exact h
      · split <;> exact h

theorem quote_through_ne (h : n.quote ≠ some d) (t : Text) : (n.through t).quote ≠ some d := by
  induction t generalizing n with
  | nil => exact h
  | cons c t ih => exact ih (quote_next_ne hd h c)

end Idle

theorem isIdle_of_isBlank {c : Char} (hc : Text.isBlank c = true) : isIdle c = true := by
  rw [isIdle, Bool.not_eq_true', Bool.eq_false_iff]
  intro hmem
  have hcases : c = '"' ∨ c = '\'' ∨ c = '(' ∨ c = ')' := by simpa using hmem
  rcases hcases with rfl | rfl | rfl | rfl <;> exact absurd hc (by decide)

/-- Blanks change nothing and separate nothing, be they inside quotes or outside. -/
theorem through_blanks {blanks : Text} (hblanks : Text.allBlank blanks = true)
    (h : ∀ c, Text.isBlank c = true → n.quote ≠ some c) :
    n.through blanks = n ∧ n.isWhole blanks = true := by
  induction blanks with
  | nil => exact ⟨rfl, rfl⟩
  | cons c blanks ih =>
    rw [Text.allBlank, List.all_cons, Bool.and_eq_true] at hblanks
    have hnext : n.next c = n := next_of_isIdle (isIdle_of_isBlank hblanks.1) (h c hblanks.1)
    have hcomma : c ≠ ',' := by
      rintro rfl
      exact absurd hblanks.1 (by decide)
    obtain ⟨hthrough, hwhole⟩ := ih hblanks.2
    refine ⟨?_, ?_⟩
    · rw [through, List.foldl_cons, hnext]
      exact hthrough
    · rw [isWhole, hnext, hwhole]
      simp [hcomma]

/-- An argument is read alike with blanks around it and without them. -/
theorem through_of_pads (h : Text.Pads t u) :
    through {} u = through {} t ∧ isWhole {} u = isWhole {} t := by
  obtain ⟨before, after, hbefore, hafter, rfl⟩ := h
  have hfront := through_blanks (n := {}) hbefore fun _ _ ↦ Option.some_ne_none _ ∘ Eq.symm
  -- what is open after the argument was opened by a quote, so no blank closes it
  have hback := through_blanks (n := through {} t) hafter fun c hc ↦
    quote_through_ne (isIdle_of_isBlank hc) (Option.some_ne_none _ ∘ Eq.symm) t
  constructor
  · rw [through_append, through_append, hfront.1, hback.1]
  · rw [isWhole_append, isWhole_append, through_append, hfront.1, hfront.2, hback.2,
      Bool.true_and, Bool.and_true]

end Nesting

/-! ## Splitting what was joined -/

section Pieces

variable {n : Nesting} {t p : Text} {more : List Text}

/-- The first piece of a list is all of it, or ends at the first comma that separates. -/
theorem pieces_eq_cons_iff : pieces n t = p :: more ↔
    (more = [] ∧ p = t ∧ n.isWhole t = true) ∨
      ∃ rest, t = p ++ ',' :: rest ∧ n.isWhole p = true ∧ n.through p = {} ∧
        more = pieces {} rest := by
  induction t generalizing n p with
  | nil =>
    constructor
    · rintro ⟨rfl, rfl⟩
      exact Or.inl ⟨rfl, rfl, rfl⟩
    · rintro (⟨rfl, rfl, -⟩ | ⟨rest, heq, -⟩)
      · rfl
      · simp at heq
  | cons c t ih =>
    by_cases hcomma : (n.isOutside && c == ',') = true
    · rw [pieces, if_pos hcomma]
      have hparts := hcomma
      rw [Bool.and_eq_true, beq_iff_eq, Nesting.isOutside_iff] at hparts
      obtain ⟨rfl, rfl⟩ := hparts
      have hsplits : ∀ u, Nesting.isWhole {} (',' :: u) = false := fun _ ↦ rfl
      constructor
      · rintro ⟨rfl, rfl⟩
        exact Or.inr ⟨t, rfl, rfl, rfl, rfl⟩
      · rintro (⟨-, -, hwhole⟩ | ⟨rest, heq, hwhole, -, rfl⟩)
        · simp [hsplits] at hwhole
        · cases p with
          | nil =>
            obtain ⟨-, rfl⟩ := List.cons.inj heq
            rfl
          | cons d p =>
            obtain ⟨rfl, -⟩ := List.cons.inj heq
            simp [hsplits] at hwhole
    · obtain ⟨first, others, hpieces⟩ :=
        List.exists_cons_of_ne_nil (pieces_ne_nil (n.next c) t)
      have hhead : pieces n (c :: t) = (c :: first) :: others := by
        rw [pieces, if_neg hcomma, hpieces]
      have hwhole : ∀ u, n.isWhole (c :: u) = (n.next c).isWhole u := by
        intro u
        rw [Nesting.isWhole, Bool.of_not_eq_true hcomma, Bool.not_false, Bool.true_and]
      rw [hhead]
      constructor
      · rintro ⟨rfl, rfl⟩
        rcases ih.mp hpieces with ⟨hnil, rfl, hfirst⟩ | ⟨rest, rfl, hfirst, hclosed, hrest⟩
        · exact Or.inl ⟨hnil, rfl, (hwhole _).trans hfirst⟩
        · exact Or.inr ⟨rest, rfl, (hwhole _).trans hfirst, hclosed, hrest⟩
      · intro hp
        have hcons : ∃ p', p = c :: p' ∧ pieces (n.next c) t = p' :: more := by
          rcases hp with ⟨hnil, rfl, hp⟩ | ⟨rest, heq, hp, hclosed, hrest⟩
          · exact ⟨t, rfl, ih.mpr (Or.inl ⟨hnil, rfl, hwhole t ▸ hp⟩)⟩
          · cases p with
            | nil =>
              -- a comma that comes first separates, unless something is open
              obtain ⟨rfl, -⟩ := List.cons.inj heq
              exact absurd (by simp [Nesting.isOutside_iff.mpr (show n = {} from hclosed)]) hcomma
            | cons d p =>
              obtain ⟨rfl, rfl⟩ := List.cons.inj heq
              exact ⟨p, rfl, ih.mpr (Or.inr ⟨rest, rfl, hwhole p ▸ hp, hclosed, hrest⟩)⟩
        obtain ⟨p', rfl, hp'⟩ := hcons
        rw [hpieces] at hp'
        obtain ⟨rfl, rfl⟩ := List.cons.inj hp'
        rfl

theorem pieces_eq_singleton_iff : pieces n t = [p] ↔ p = t ∧ n.isWhole t = true := by
  rw [pieces_eq_cons_iff]
  constructor
  · rintro (⟨-, hp⟩ | ⟨rest, -, -, -, hnil⟩)
    · exact hp
    · exact absurd hnil.symm (pieces_ne_nil {} rest)
  · rintro hp
    exact Or.inl ⟨rfl, hp⟩

end Pieces

/-- Two texts that end at a comma of the same list and have the same trimming are the same. -/
theorem eq_of_trim_eq {p u r rest : Text} (heq : u ++ ',' :: r = p ++ ',' :: rest)
    (htrim : Text.trim p = Text.trim u) : p = u := by
  have hcount : p.count ',' = u.count ',' := by
    rw [← Text.count_trim (by decide) p, htrim, Text.count_trim (by decide)]
  rcases List.append_eq_append_iff.mp heq with ⟨mid, hp, hmid⟩ | ⟨mid, hu, hmid⟩
  · cases mid with
    | nil => simpa using hp
    | cons c mid =>
      obtain ⟨rfl, -⟩ := List.cons.inj hmid
      simp [hp] at hcount
  · cases mid with
    | nil => simpa using hu.symm
    | cons c mid =>
      obtain ⟨rfl, -⟩ := List.cons.inj hmid
      simp [hu] at hcount

theorem map_trim_pieces_iff {us : List Text} (hne : us ≠ []) :
    (pieces {} ([','].intercalate us)).map Text.trim = us.map Text.trim ↔
      (∀ u ∈ us, Nesting.isWhole {} u = true) ∧ ∀ u ∈ us.dropLast, Nesting.through {} u = {} := by
  induction us with
  | nil => exact absurd rfl hne
  | cons u us ih =>
    cases us with
    | nil =>
      simp only [List.intercalate_singleton, List.map_cons, List.map_nil, List.dropLast_singleton,
        List.not_mem_nil, false_imp_iff, implies_true, and_true, List.forall_mem_singleton]
      constructor
      · intro hmap
        obtain ⟨p, hp, -⟩ := List.map_eq_singleton_iff.mp hmap
        exact (pieces_eq_singleton_iff.mp hp).2
      · intro hwhole
        rw [pieces_eq_singleton_iff.mpr ⟨rfl, hwhole⟩]
        rfl
    | cons v us =>
      have hjoined : [','].intercalate (u :: v :: us) =
          u ++ ',' :: [','].intercalate (v :: us) := by
        simp [List.intercalate_cons_cons]
      have hrest := ih (List.cons_ne_nil v us)
      rw [hjoined, List.map_cons, List.forall_mem_cons (a := u), List.dropLast_cons_cons,
        List.forall_mem_cons (a := u)]
      constructor
      · intro hmap
        obtain ⟨p, more, hpieces, htrim, hmore⟩ := List.map_eq_cons_iff.mp hmap
        rcases pieces_eq_cons_iff.mp hpieces with ⟨rfl, -⟩ | ⟨rest, heq, hwhole, hclosed, rfl⟩
        · cases hmore
        · obtain rfl := eq_of_trim_eq heq htrim
          obtain rfl : [','].intercalate (v :: us) = rest := by
            simpa using List.append_cancel_left heq
          obtain ⟨hwholes, hcloseds⟩ := hrest.mp hmore
          exact ⟨⟨hwhole, hwholes⟩, hclosed, hcloseds⟩
      · rintro ⟨⟨hwhole, hwholes⟩, hclosed, hcloseds⟩
        rw [pieces_eq_cons_iff.mpr (Or.inr ⟨_, rfl, hwhole, hclosed, rfl⟩), List.map_cons,
          hrest.mpr ⟨hwholes, hcloseds⟩]

/-- Splitting undoes joining exactly if each text is one argument to the splitter and all but the
last leave nothing open. -/
theorem split_intercalate_iff {us : List Text} (hne : us ≠ [])
    (hus : ∀ u ∈ us, Text.allBlank u = false) :
    split ([','].intercalate us) = us.map Text.trim ↔
      (∀ u ∈ us, Nesting.isWhole {} u = true) ∧ ∀ u ∈ us.dropLast, Nesting.through {} u = {} := by
  have hblank : Text.allBlank ([','].intercalate us) = false := by
    obtain ⟨u, us, rfl⟩ := List.exists_cons_of_ne_nil hne
    have hu : u.all Text.isBlank = false := hus u List.mem_cons_self
    cases us with
    | nil => simpa [Text.allBlank] using hu
    | cons v us => simp [Text.allBlank, List.intercalate_cons_cons, hu]
  rw [split, hblank, if_neg Bool.false_ne_true, map_trim_pieces_iff hne]

/-- Joining with a comma and a space is joining with a comma once each text but the first starts
with the space. -/
theorem intercalate_comma_space (t : Text) (ts : List Text) :
    [',', ' '].intercalate (t :: ts) = [','].intercalate (t :: ts.map (' ' :: ·)) := by
  induction ts generalizing t with
  | nil => simp
  | cons u ts ih =>
    rw [List.intercalate_cons_cons, ih, List.map_cons, List.intercalate_cons_cons]
    cases ts <;> simp [List.intercalate_cons_cons]

/-- Splitting gives trimmed texts back, whatever blanks stand around them, exactly if each is one
argument to the splitter and all but the last leave nothing open. -/
theorem split_pads_iff {ts us : List Text} (hne : ts ≠ []) (hts : ∀ t ∈ ts, t ≠ [] ∧ t.IsTrimmed)
    (hus : List.Forall₂ Text.Pads ts us) :
    split ([','].intercalate us) = ts ↔
      (∀ t ∈ ts, Nesting.isWhole {} t = true) ∧ ∀ t ∈ ts.dropLast, Nesting.through {} t = {} := by
  have hread : us.map Text.trim = ts ∧ us.map (Nesting.isWhole {}) = ts.map (Nesting.isWhole {}) ∧
      us.map (Nesting.through {}) = ts.map (Nesting.through {}) := by
    clear hne
    induction hus with
    | nil => exact ⟨rfl, rfl, rfl⟩
    | @cons t u ts us hpads _ ih =>
      rw [List.forall_mem_cons] at hts
      obtain ⟨htrim, hwhole, hthrough⟩ := ih hts.2
      have hpadded := Nesting.through_of_pads hpads
      refine ⟨?_, ?_, ?_⟩
      · rw [List.map_cons, htrim, hts.1.2.trim_of_pads hpads]
      · rw [List.map_cons, List.map_cons, hwhole, hpadded.2]
      · rw [List.map_cons, List.map_cons, hthrough, hpadded.1]
  obtain ⟨htrim, hwhole, hthrough⟩ := hread
  have husne : us ≠ [] := by
    rintro rfl
    exact hne htrim.symm
  have hblank : ∀ u ∈ us, Text.allBlank u = false := by
    intro u hu
    have hmem : Text.trim u ∈ ts := htrim ▸ List.mem_map_of_mem hu
    rw [Bool.eq_false_iff]
    intro hblank
    have hnil : Text.trim u = [] :=
      Text.IsTrimmed.trim_of_pads ⟨by simp, by simp⟩ ⟨u, [], hblank, rfl, by simp⟩
    exact (hts _ hmem).1 hnil
  have hsplit := split_intercalate_iff husne hblank
  rw [htrim] at hsplit
  rw [hsplit, ← List.forall_mem_map (f := Nesting.isWhole {}) (P := fun whole ↦ whole = true),
    hwhole, ← List.forall_mem_map (f := Nesting.through {}) (P := fun n ↦ n = {}),
    List.map_dropLast, hthrough, ← List.map_dropLast, List.forall_mem_map, List.forall_mem_map]

theorem split_spaced_iff {ts : List Text} (hne : ts ≠ [])
    (hts : ∀ t ∈ ts, t ≠ [] ∧ t.IsTrimmed) :
    split ([',', ' '].intercalate ts) = ts ↔
      (∀ t ∈ ts, Nesting.isWhole {} t = true) ∧ ∀ t ∈ ts.dropLast, Nesting.through {} t = {} := by
  obtain ⟨t, rest, rfl⟩ := List.exists_cons_of_ne_nil hne
  have hspaces : List.Forall₂ Text.Pads rest (rest.map (' ' :: ·)) := by
    rw [List.forall₂_map_right_iff, List.forall₂_same]
    exact fun u _ ↦ ⟨[' '], [], by decide, rfl, by simp⟩
  rw [intercalate_comma_space]
  exact split_pads_iff hne hts (.cons ⟨[], [], rfl, rfl, by simp⟩ hspaces)

/-- The text is one argument to the splitter when it is read on its own: no comma in it stands
outside quotes and parentheses, and nothing is open at its end. A closing parenthesis without an
opening one is passed over like any other character. -/
structure IsArgument (t : Text) : Prop where
  ne_nil : t ≠ []
  isTrimmed : t.IsTrimmed
  isWhole : Nesting.isWhole {} t = true
  closed : Nesting.through {} t = {}

/-- Splitting undoes joining by commas, whatever blanks stand around the arguments. -/
theorem split_of_joined {ts us : List Text} (hne : ts ≠ []) (hts : ∀ t ∈ ts, IsArgument t)
    (hus : List.Forall₂ Text.Pads ts us) : split ([','].intercalate us) = ts := by
  have hsolid : ∀ t ∈ ts, t ≠ [] ∧ t.IsTrimmed := fun t ht ↦
    ⟨(hts t ht).ne_nil, (hts t ht).isTrimmed⟩
  refine (split_pads_iff hne hsolid hus).mpr ⟨fun t ht ↦ (hts t ht).isWhole, fun t ht ↦ ?_⟩
  exact (hts t ((List.dropLast_sublist ts).subset ht)).closed

theorem split_of_joined_nested :
    split " rgba(0, (1)) ,\turl('a,b'),\n\"x, (\"\n ".toList =
      ["rgba(0, (1))".toList, "url('a,b')".toList, "\"x, (\"".toList] := by
  have hts : ∀ t ∈ ["rgba(0, (1))".toList, "url('a,b')".toList, "\"x, (\"".toList],
      IsArgument t := by
    simp only [List.forall_mem_cons, List.not_mem_nil, false_imp_iff, implies_true, and_true]
    refine ⟨?_, ?_, ?_⟩
    all_goals exact ⟨by decide, ⟨by rintro _ ⟨⟩; rfl, by rintro _ ⟨⟩; rfl⟩, by decide, by decide⟩
  have hus : List.Forall₂ Text.Pads
      ["rgba(0, (1))".toList, "url('a,b')".toList, "\"x, (\"".toList]
      [" rgba(0, (1)) ".toList, "\turl('a,b')".toList, "\n\"x, (\"\n ".toList] := by
    refine .cons ⟨[' '], [' '], ?_⟩ (.cons ⟨['\t'], [], ?_⟩
      (.cons ⟨['\n'], ['\n', ' '], ?_⟩ .nil))
    all_goals decide
  exact split_of_joined (by simp) hts hus

/-! ## Arguments between double quotes -/

namespace Nesting

/-- Between double quotes. -/
def quoted : Nesting :=
  { quote := some '"' }

section Backslash

variable {n : Nesting} (h : n.quote ≠ some '\\')
include h

/-- The splitter passes over the backslashes of a written text. -/
theorem through_encode (t : Text) :
    n.through (Value.encode t) = n.through t ∧ n.isWhole (Value.encode t) = n.isWhole t := by
  induction t generalizing n with
  | nil => exact ⟨rfl, rfl⟩
  | cons c t ih =>
    obtain ⟨hthrough, hwhole⟩ := ih (quote_next_ne (by decide) h c)
    have hcons : n.through (c :: Value.encode t) = n.through (c :: t) ∧
        n.isWhole (c :: Value.encode t) = n.isWhole (c :: t) :=
      ⟨hthrough, by rw [isWhole, isWhole, hwhole]⟩
    by_cases hspecial : c = '"' ∨ c = '\\'
    · rw [Value.encode_cons_of_special hspecial]
      have hthrough' : n.through ('\\' :: c :: Value.encode t) = n.through (c :: Value.encode t) :=
        congrArg (through · (c :: Value.encode t)) (next_of_isIdle (by decide) h)
      have hwhole' : n.isWhole ('\\' :: c :: Value.encode t) = n.isWhole (c :: Value.encode t) := by
        rw [isWhole, next_of_isIdle (by decide) h]
        simp
      exact ⟨hthrough'.trans hcons.1, hwhole'.trans hcons.2⟩
    · obtain ⟨hquote, hbackslash⟩ := not_or.mp hspecial
      rwa [Value.encode_cons_of_plain hquote hbackslash]

end Backslash

theorem isWhole_quote (t : Text) : isWhole {} (Value.quote t) = quoted.isWhole t := by
  have hopen : isWhole {} (Value.quote t) = quoted.isWhole (Value.encode t ++ ['"']) := by
    rw [Value.quote, isWhole]
    rfl
  rw [hopen, isWhole_append, (through_encode (by decide) t).2]
  simp [isWhole]

theorem through_quote_iff (t : Text) :
    through {} (Value.quote t) = {} ↔ quoted.through t = quoted := by
  have hopen : through {} (Value.quote t) = (quoted.through t).next '"' := by
    rw [← (through_encode (by decide) t).1]
    exact through_append
  rw [hopen]
  generalize quoted.through t = n
  obtain ⟨_ | q, depth⟩ := n
  · simp [next, quoted]
  · by_cases hq : '"' = q
    · simp [next, quoted, ← hq]
    · simp [next, quoted, hq, Ne.symm hq]

/-- Without a double quote, a text between double quotes stays between them. -/
theorem through_quoted_of_not_mem {t : Text} (h : '"' ∉ t) :
    quoted.through t = quoted ∧ quoted.isWhole t = true := by
  induction t with
  | nil => exact ⟨rfl, rfl⟩
  | cons c t ih =>
    rw [List.mem_cons, not_or] at h
    have hnext : quoted.next c = quoted := by simp [next, quoted, Ne.symm h.1]
    obtain ⟨hthrough, hwhole⟩ := ih h.2
    refine ⟨?_, ?_⟩
    · rw [through, List.foldl_cons, hnext]
      exact hthrough
    · rw [isWhole, hnext, hwhole]
      rfl

end Nesting

end Arguments

end StyledMarkup
