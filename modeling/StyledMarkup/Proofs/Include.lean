import StyledMarkup.Directive
import StyledMarkup.Proofs.Arguments
import StyledMarkup.Proofs.Statement.Completes

/-!
# Requests with quoted arguments

A request for a mixin can be written on one line, with each argument between double quotes and a
backslash before each quote and each backslash in it. The scanner knows these backslashes, so the
line is one statement whatever the arguments are. The splitter of arguments does not, so it gives
the arguments back exactly if no double quote in one of them misleads it.
-/

namespace StyledMarkup

/-! ## Scanning quoted arguments -/

namespace Scan.Mode

variable (ahead : Bool) (depth : Nat)

theorem read_of_isPlain {t : Text} (ht : ∀ c ∈ t, isPlain c = true) (word : Bool) :
    ∃ last, read ahead t { depth, word } = some { depth, word := last } := by
  induction t generalizing word with
  | nil => exact ⟨word, rfl⟩
  | cons c t ih =>
    rw [List.forall_mem_cons] at ht
    have hne : c ≠ '"' ∧ c ≠ '\'' ∧ c ≠ '(' ∧ c ≠ ')' ∧ c ≠ '{' ∧ c ≠ '}' ∧ c ≠ ';' := by
      simpa [isPlain, and_assoc] using ht.1
    have hstep : step (t.contains '\'' || ahead) { depth, word } c =
        some { depth, word := Text.isAlphanumeric c } := by
      simp [step, isEnd, hne]
    rw [read, hstep]
    exact ih ht.2 (Text.isAlphanumeric c)

/-- Whatever is written between double quotes, they stay open. -/
theorem read_encode (t : Text) (word : Bool) :
    ∃ last, read ahead (Value.encode t) { quote := some '"', depth, word } =
      some { quote := some '"', depth, word := last } := by
  induction t generalizing word with
  | nil => exact ⟨word, rfl⟩
  | cons c t ih =>
    obtain ⟨last, hread⟩ := ih (Text.isAlphanumeric c)
    refine ⟨last, ?_⟩
    by_cases hspecial : c = '"' ∨ c = '\\'
    · rw [Value.encode_cons_of_special hspecial]
      simpa [read, step] using hread
    · obtain ⟨hquote, hbackslash⟩ := not_or.mp hspecial
      rw [Value.encode_cons_of_plain hquote hbackslash]
      simpa [read, step, hquote, hbackslash] using hread

theorem read_quote (t : Text) : read ahead (Value.quote t) { depth } = some { depth } := by
  have hopen : ∀ next, step next { depth } '"' = some { quote := some '"', depth } := fun _ ↦ rfl
  have hclose : ∀ last, read ahead ['"'] { quote := some '"', depth, word := last } =
      some { depth } := fun _ ↦ rfl
  obtain ⟨last, hread⟩ := read_encode (['"'].contains '\'' || ahead) depth t false
  rw [Value.quote, read, hopen, Option.bind_some, read_append, hread, Option.bind_some, hclose]

theorem read_intercalate_quote (ts : List Text) :
    read ahead ([',', ' '].intercalate (ts.map Value.quote)) { depth } = some { depth } := by
  induction ts with
  | nil => rfl
  | cons t ts ih =>
    cases ts with
    | nil => simpa using read_quote ahead depth t
    | cons u ts =>
      have hcomma : ∀ next, read next [',', ' '] { depth } = some { depth } := by
        have hword : Text.isAlphanumeric ',' = false ∧ Text.isAlphanumeric ' ' = false := by decide
        intro next
        simp [read, step, isEnd, hword]
      rw [List.map_cons, List.map_cons, List.intercalate_cons_cons, List.append_assoc, read_append,
        read_quote, Option.bind_some, read_append, hcomma, Option.bind_some]
      exact ih

end Scan.Mode

namespace Directive

/-- A request for a mixin, on one line. -/
def includeLine (name : Text) (args : List Text) : Text :=
  includeKeyword ++ ' ' :: (name ++ '(' :: ([',', ' '].intercalate args ++ [')', ';']))

section Name

variable {name : Text} (hname : isName name = true)
include hname

theorem ne_nil_of_isName : name ≠ [] := by
  rintro rfl
  cases hname

theorem isPlain_of_isName {c : Char} (hc : c ∈ name) :
    Scan.isPlain c = true ∧ Text.isBlank c = false := by
  rw [isName, Bool.and_eq_true, List.all_eq_true] at hname
  have hchar := hname.2 c hc
  constructor
  · rw [Scan.isPlain, Bool.not_eq_true', Bool.eq_false_iff]
    intro hspecial
    have hmem := List.contains_iff_mem.mp hspecial
    simp only [List.mem_cons, List.not_mem_nil, or_false] at hmem
    rcases hmem with rfl | rfl | rfl | rfl | rfl | rfl | rfl <;> exact absurd hchar (by decide)
  · rw [Bool.eq_false_iff]
    intro hblank
    rw [Text.isAlphanumeric_of_isBlank hblank] at hchar
    simp only [Bool.false_or, Bool.or_eq_true, beq_iff_eq] at hchar
    rcases hchar with rfl | rfl <;> exact absurd hblank (by decide)

theorem isTrimmed_of_isName : name.IsTrimmed :=
  ⟨fun _ hc ↦ (isPlain_of_isName hname (List.mem_of_head? hc)).2,
    fun _ hc ↦ (isPlain_of_isName hname (List.mem_of_getLast? hc)).2⟩

/-- The request is read as the name and what the splitter makes of the arguments. -/
theorem include?_includeLine (args : List Text) :
    include? (includeLine name args) =
      some ⟨name, some (Arguments.split ([',', ' '].intercalate args))⟩ := by
  generalize hinner : [',', ' '].intercalate args = inner
  obtain ⟨c, rest, hcons⟩ := List.exists_cons_of_ne_nil (ne_nil_of_isName hname)
  have hc : Text.isBlank c = false := (isPlain_of_isName hname (hcons ▸ List.mem_cons_self)).2
  have hafter : Text.after? includeKeyword (includeLine name args) =
      some (' ' :: (name ++ '(' :: inner ++ [')']) ++ [';']) := by
    rw [Text.after?_eq_some_iff, includeLine, hinner]
    simp
  have htrim : Text.trim (' ' :: (name ++ '(' :: inner ++ [')']) ++ [';']) =
      name ++ '(' :: inner ++ [')'] ++ [';'] := by
    have hspace : Text.isBlank ' ' = true := by decide
    rw [Text.trim_append_singleton _ (by decide), hcons]
    simp [Text.trimStart, hspace, hc]
  have htail : Text.trimEnd (Text.dropTail [';'] (name ++ '(' :: inner ++ [')'] ++ [';'])) =
      name ++ '(' :: inner ++ [')'] := by
    rw [Text.dropTail, Text.before?_eq_some_iff.mpr rfl, Option.getD_some,
      Text.trimEnd_append_singleton _ (by decide)]
  have hcall : call? (name ++ '(' :: inner ++ [')']) = some (name, inner) := by
    have hparen : '(' ∉ name := fun hmem ↦
      absurd (isPlain_of_isName hname hmem).1 (by decide)
    have hsplit : Text.splitAt? '(' (name ++ '(' :: inner ++ [')']) = some (name, inner ++ [')']) :=
      Text.splitAt?_eq_some_iff.mpr ⟨by simp, hparen⟩
    rw [call?, hsplit]
    dsimp only
    rw [Text.before?_eq_some_iff.mpr rfl, Option.map_some, (isTrimmed_of_isName hname).trim_eq]
  have hcontains : (name ++ '(' :: inner ++ [')']).contains '(' = true := by simp
  simp only [include?, hafter, Option.bind_eq_bind, Option.bind_some, htrim, htail, hcontains,
    if_true, hcall, Option.map_some, hname]

/-- Between the parentheses of a request no statement ends. -/
theorem completes_includeLine (strings : List Text) :
    Scan.Completes false (includeLine name (strings.map Value.quote)) := by
  let inner := [',', ' '].intercalate (strings.map Value.quote)
  have hplain : ∀ c ∈ includeKeyword ++ ' ' :: name, Scan.isPlain c = true := by
    have hkeyword : includeKeyword.all Scan.isPlain = true := by decide
    simp only [List.forall_mem_append, List.forall_mem_cons]
    exact ⟨List.all_eq_true.mp hkeyword, rfl, fun c hc ↦ (isPlain_of_isName hname hc).1⟩
  have hsplit : includeLine name (strings.map Value.quote) =
      (includeKeyword ++ ' ' :: name) ++ ('(' :: (inner ++ [')'])) ++ [';'] := by
    simp [includeLine, inner]
  have hopen : ∀ next word, Scan.Mode.step next { word } '(' = some { depth := 1 } := by
    simp [Scan.Mode.step]
    decide
  have hclose : Scan.Mode.read false [')'] { depth := 1 } = some {} := by decide
  have hread : Scan.Mode.read false
      ((includeKeyword ++ ' ' :: name) ++ ('(' :: (inner ++ [')']))) {} = some {} := by
    obtain ⟨last, hname⟩ := Scan.Mode.read_of_isPlain
      (('(' :: (inner ++ [')'])).contains '\'' || false) 0 hplain false
    rw [Scan.Mode.read_append, hname, Option.bind_some, Scan.Mode.read, hopen, Option.bind_some,
      Scan.Mode.read_append, Scan.Mode.read_intercalate_quote, Option.bind_some, hclose]
  rw [hsplit]
  refine .ended (Or.inl rfl) (fun heq ↦ ?_) hread rfl rfl
  have hlength := congrArg List.length heq
  simp only [List.length_append, List.length_cons, List.length_nil] at hlength
  omega

end Name

theorem not_mem_intercalate {c : Char} {separator : Text} (hseparator : c ∉ separator)
    {ts : List Text} (hts : ∀ t ∈ ts, c ∉ t) : c ∉ separator.intercalate ts := by
  induction ts with
  | nil => exact List.not_mem_nil
  | cons t ts ih =>
    rw [List.forall_mem_cons] at hts
    cases ts with
    | nil => simpa using hts.1
    | cons u ts =>
      rw [List.intercalate_cons_cons, List.mem_append, List.mem_append]
      exact not_or.mpr ⟨not_or.mpr ⟨hts.1, hseparator⟩, ih hts.2⟩

theorem scan_includeLine {name : Text} (hname : isName name = true) {strings : List Text}
    (hlines : ∀ s ∈ strings, '\n' ∉ s) :
    Statement.scan (includeLine name (strings.map Value.quote)) =
      .ok [⟨includeLine name (strings.map Value.quote), 1⟩] := by
  have hcompletes := completes_includeLine hname strings
  have hnewline : '\n' ∉ includeLine name (strings.map Value.quote) := by
    have hkeyword : includeKeyword.contains '\n' = false := by decide
    have hname' : '\n' ∉ name := fun hmem ↦ absurd (isPlain_of_isName hname hmem).2 (by decide)
    have hargs : '\n' ∉ [',', ' '].intercalate (strings.map Value.quote) := by
      refine not_mem_intercalate (by decide) (List.forall_mem_map.mpr fun s hs ↦ ?_)
      have hencode : '\n' ∉ Value.encode s := by
        intro hmem
        rcases Value.mem_encode hmem with hbackslash | hmem
        · cases hbackslash
        · exact hlines s hs hmem
      simp [Value.quote, hencode]
    simp only [includeLine, List.mem_append, List.mem_cons, not_or]
    exact ⟨by simpa using hkeyword, by decide, hname', by decide, hargs, by decide, by decide,
      List.not_mem_nil⟩
  have htrimmed : (includeLine name (strings.map Value.quote)).IsTrimmed := by
    have hsplit : includeLine name (strings.map Value.quote) = includeKeyword ++ ' ' :: (name ++
        '(' :: ([',', ' '].intercalate (strings.map Value.quote) ++ [')'])) ++ [';'] := by
      simp [includeLine]
    rw [hsplit]
    exact Text.isTrimmed_append_singleton ⟨'@', rfl, by decide⟩ (by decide)
  have hcomment : Statement.commentMarker.isPrefixOf (includeLine name (strings.map Value.quote)) =
      false := rfl
  rw [Statement.scan, Text.lines_of_not_mem hnewline hcompletes.ne_nil]
  generalize includeLine name (strings.map Value.quote) = line at *
  have hfront : ([(1, line)].map fun l ↦ Text.trim l.2) =
      [line] ++ (none : Option Text).toList := by
    simp [htrimmed.trim_eq]
  have hscan := Statement.scanLines_of_completes hfront (by simpa using hcompletes) (by simp)
    (by simpa [htrimmed.trim_eq] using hcomment)
  simpa [htrimmed.trim_eq] using hscan

/-! ## Splitting quoted arguments -/

open Arguments (Nesting)

/-- The arguments come back exactly if the splitter, reading the texts between their double quotes,
meets no comma that separates, and is between double quotes again at the end of each but the
last. -/
theorem split_quotes_iff {strings : List Text} (hne : strings ≠ []) :
    Arguments.split ([',', ' '].intercalate (strings.map Value.quote)) =
        strings.map Value.quote ↔
      (∀ s ∈ strings, Nesting.quoted.isWhole s = true) ∧
        ∀ s ∈ strings.dropLast, Nesting.quoted.through s = Nesting.quoted := by
  have hquote : ∀ t ∈ strings.map Value.quote, t ≠ [] ∧ t.IsTrimmed := by
    exact List.forall_mem_map.mpr fun s _ ↦ ⟨List.cons_ne_nil _ _, Value.isTrimmed_enclose _⟩
  rw [Arguments.split_spaced_iff (by simpa using hne) hquote, List.forall_mem_map,
    ← List.map_dropLast, List.forall_mem_map]
  simp only [Nesting.isWhole_quote, Nesting.through_quote_iff]

/-- A request with quoted arguments is one statement, and it is read as its name and some arguments.
They are the quoted ones exactly if no double quote in one of them misleads the splitter. -/
theorem include_of_quoted {name : Text} {strings : List Text} (hname : isName name = true)
    (hne : strings ≠ []) (hlines : ∀ s ∈ strings, '\n' ∉ s) :
    Statement.scan (includeLine name (strings.map Value.quote)) =
        .ok [⟨includeLine name (strings.map Value.quote), 1⟩] ∧
      ∃ args, include? (includeLine name (strings.map Value.quote)) = some ⟨name, some args⟩ ∧
        (args = strings.map Value.quote ↔
          (∀ s ∈ strings, Nesting.quoted.isWhole s = true) ∧
            ∀ s ∈ strings.dropLast, Nesting.quoted.through s = Nesting.quoted) ∧
        ((∀ s ∈ strings, '"' ∉ s) → args = strings.map Value.quote) := by
  have hsplit := split_quotes_iff hne
  refine ⟨scan_includeLine hname hlines, _, include?_includeLine hname _, hsplit, fun hquotes ↦ ?_⟩
  rw [hsplit]
  constructor
  · intro s hs
    exact (Nesting.through_quoted_of_not_mem (hquotes s hs)).2
  · intro s hs
    exact (Nesting.through_quoted_of_not_mem (hquotes s (List.mem_of_mem_dropLast hs))).1

theorem include_of_quoted_commas :
    Statement.scan "@include card(\"a, b\", \"it's (\", \"c\\\\\");".toList =
        .ok [⟨"@include card(\"a, b\", \"it's (\", \"c\\\\\");".toList, 1⟩] ∧
      include? "@include card(\"a, b\", \"it's (\", \"c\\\\\");".toList =
        some ⟨"card".toList, some
          ["\"a, b\"".toList, "\"it's (\"".toList, "\"c\\\\\"".toList]⟩ := by
  have hname : isName "card".toList = true := by decide
  have hlines : ∀ s ∈ ["a, b".toList, "it's (".toList, "c\\".toList], '\n' ∉ s := by decide
  obtain ⟨hscan, args, hread, -, hargs⟩ := include_of_quoted hname (by simp) hlines
  rw [hargs (by decide)] at hread
  exact ⟨hscan, hread⟩

/-- The arguments do not always come back: the double quote of the first argument closes its quotes,
and the comma after it no longer separates. -/
theorem not_forall_include_of_quoted :
    ¬∀ (name : Text) (strings : List Text), isName name = true → strings ≠ [] →
      (∀ s ∈ strings, '\n' ∉ s) →
      Statement.scan (includeLine name (strings.map Value.quote)) =
          .ok [⟨includeLine name (strings.map Value.quote), 1⟩] ∧
        include? (includeLine name (strings.map Value.quote)) =
          some ⟨name, some (strings.map Value.quote)⟩ := by
  intro hall
  have hread := (hall ['m'] [['"'], ['a']] (by decide) (by simp) (by decide)).2
  revert hread
  decide

end Directive

end StyledMarkup
