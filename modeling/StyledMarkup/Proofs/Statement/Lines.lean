import StyledMarkup.Proofs.Text
import StyledMarkup.Proofs.Value
import StyledMarkup.Render
import StyledMarkup.Statement.Scan

/-!
# Sources with one statement a line

A source that is put together from lines is cut into the same lines again, and a line that holds one
whole statement is scanned as that statement. Three kinds of lines are whole: an opener without
quotes and parentheses, a declaration of a quoted value, whatever the value is, and a closing brace.
-/

namespace StyledMarkup

/-! ## Physical lines -/

namespace Text

theorem lines_cons {c : Char} (hc : c ≠ '\n') {rest : Text}
    (hreturn : c = '\r' → rest.head? ≠ some '\n') :
    lines (c :: rest) =
      match lines rest with
      | [] => [[c]]
      | line :: more => (c :: line) :: more := by
  rw [lines.eq_def]
  split
  · simp_all
  · simp_all
  · simp_all
  · next heq =>
    obtain ⟨rfl, rfl⟩ := List.cons.inj heq
    rfl

/-- The text can stand on a line of its own, whatever follows. -/
def IsLine (t : Text) : Prop :=
  '\n' ∉ t ∧ t.getLast? ≠ some '\r'

theorem lines_append_newline {t : Text} (ht : t.IsLine) (rest : Text) :
    lines (t ++ '\n' :: rest) = t :: lines rest := by
  obtain ⟨hnewline, hreturn⟩ := ht
  induction t with
  | nil => rw [List.nil_append, lines]
  | cons c t ih =>
    have hc : c ≠ '\n' := fun heq ↦ hnewline (heq ▸ List.mem_cons_self)
    have htail : '\n' ∉ t := fun hmem ↦ hnewline (List.mem_cons_of_mem c hmem)
    rw [List.cons_append, lines_cons hc]
    · rw [ih htail fun hlast ↦ hreturn (by simp [List.getLast?_cons, hlast])]
    · rintro rfl hhead
      cases t with
      | nil => exact hreturn rfl
      | cons d t =>
        simp only [List.cons_append, List.head?_cons, Option.some.injEq] at hhead
        exact htail (hhead ▸ List.mem_cons_self)

theorem lines_of_not_mem {t : Text} (ht : '\n' ∉ t) (hne : t ≠ []) : lines t = [t] := by
  induction t with
  | nil => exact absurd rfl hne
  | cons c t ih =>
    have hc : c ≠ '\n' := fun heq ↦ ht (heq ▸ List.mem_cons_self)
    have htail : '\n' ∉ t := fun hmem ↦ ht (List.mem_cons_of_mem c hmem)
    rw [lines_cons hc fun _ hhead ↦ htail (List.mem_of_head? hhead)]
    cases t with
    | nil => rfl
    | cons d t => rw [ih htail (List.cons_ne_nil d t)]

/-- Cutting into lines undoes putting lines together. -/
theorem lines_joinLines {ls : List Text} (h : ∀ t ∈ ls, t.IsLine ∧ t ≠ []) :
    lines (joinLines ls) = ls := by
  induction ls with
  | nil => rfl
  | cons t ls ih =>
    obtain ⟨ht, hne⟩ := h t List.mem_cons_self
    cases ls with
    | nil => simpa [joinLines] using lines_of_not_mem ht.1 hne
    | cons u ls =>
      have hjoin : joinLines (t :: u :: ls) = t ++ '\n' :: joinLines (u :: ls) := by
        simp [joinLines]
      rw [hjoin, lines_append_newline ht, ih fun t' ht' ↦ h t' (List.mem_cons_of_mem t ht')]

end Text

/-! ## Reading a line -/

namespace Scan

/-- The character has no meaning of its own to the scanner, outside quotes. -/
def isPlain (c : Char) : Bool :=
  !(['"', '\'', '(', ')', '{', '}', ';'].contains c)

section Read

variable {s : Scan} (line : Nat) {c : Char} {rest : Text}

theorem push_of_pending (h : Text.allBlank s.pending = false) :
    s.push line c = { s with pending := c :: s.pending } := by
  simp [push, h]

theorem allBlank_append (t : Text) (h : Text.allBlank s.pending = false) :
    Text.allBlank (t ++ s.pending) = false := by
  rw [Text.allBlank] at h ⊢
  rw [List.all_append, h, Bool.and_false]

theorem readChars_cons_of_plain (hquote : s.quote = none)
    (hcomment : s.startsComment c rest = false) :
    readChars line (c :: rest) s = readChars line rest (s.readPlain line c rest) := by
  rw [readChars.eq_def]
  simp [hquote, hcomment]

theorem readChars_cons_of_quoted {q : Char} (hquote : s.quote = some q) (hbackslash : c ≠ '\\')
    (hne : c ≠ q) : readChars line (c :: rest) s = readChars line rest (s.push line c) := by
  rw [readChars.eq_def]
  simp [hquote, hbackslash, hne]

theorem readChars_cons_of_closing {q : Char} (hquote : s.quote = some q) (hbackslash : q ≠ '\\') :
    readChars line (q :: rest) s = readChars line rest { s.push line q with quote := none } := by
  rw [readChars.eq_def]
  simp [hquote, hbackslash]

theorem readChars_cons_of_escaped {q : Char} (hquote : s.quote = some q) :
    readChars line ('\\' :: c :: rest) s =
      readChars line rest ((s.push line '\\').push line c) := by
  rw [readChars.eq_def]
  simp [hquote]

theorem startsComment_of_pending (h : Text.allBlank s.pending = false) :
    s.startsComment c rest = false := by
  rw [startsComment, h, Bool.false_and]

theorem readPlain_of_isPlain (hdepth : s.depth = 0) (hc : isPlain c = true) :
    s.readPlain line c rest = s.push line c := by
  have hmem : c ≠ '"' ∧ c ≠ '\'' ∧ c ≠ '(' ∧ c ≠ ')' ∧ c ≠ '{' ∧ c ≠ '}' ∧ c ≠ ';' := by
    simpa [isPlain, and_assoc] using hc
  simp [readPlain, opensQuote, hmem, hdepth]

theorem readChars_of_isPlain (hquote : s.quote = none) (hdepth : s.depth = 0)
    (hpending : Text.allBlank s.pending = false) {t : Text} (ht : ∀ c ∈ t, isPlain c = true) :
    readChars line (t ++ rest) s =
      readChars line rest { s with pending := t.reverse ++ s.pending } := by
  induction t generalizing s with
  | nil => rfl
  | cons c t ih =>
    rw [List.cons_append, readChars_cons_of_plain line hquote (startsComment_of_pending hpending),
      readPlain_of_isPlain line hdepth (ht c List.mem_cons_self), push_of_pending line hpending,
      ih (s := { s with pending := c :: s.pending }) hquote hdepth (allBlank_append [c] hpending)
        fun d hd ↦ ht d (List.mem_cons_of_mem c hd)]
    simp

/-- Inside quotes a written value is taken as it is. -/
theorem readChars_encode (hquote : s.quote = some '"') (hpending : Text.allBlank s.pending = false)
    (value : Text) :
    readChars line (Value.encode value ++ rest) s =
      readChars line rest { s with pending := (Value.encode value).reverse ++ s.pending } := by
  induction value generalizing s with
  | nil => rfl
  | cons c value ih =>
    by_cases hspecial : c = '"' ∨ c = '\\'
    · have hescaped := allBlank_append ['\\'] hpending
      rw [Value.encode_cons_of_special hspecial, List.cons_append, List.cons_append,
        readChars_cons_of_escaped line hquote, push_of_pending line hpending,
        push_of_pending line hescaped,
        ih (s := { s with pending := c :: '\\' :: s.pending }) hquote
          (allBlank_append [c, '\\'] hpending)]
      simp
    · obtain ⟨hne, hbackslash⟩ := not_or.mp hspecial
      rw [Value.encode_cons_of_plain hne hbackslash, List.cons_append,
        readChars_cons_of_quoted line hquote hbackslash hne, push_of_pending line hpending,
        ih (s := { s with pending := c :: s.pending }) hquote (allBlank_append [c] hpending)]
      simp

/-- The first characters of a statement. -/
theorem readChars_first {finished : List Statement} {start : Nat} {t : Text}
    (ht : ∀ c ∈ t, isPlain c = true)
    (hhead : ∃ c, t.head? = some c ∧ Text.isBlank c = false ∧ c ≠ '/') :
    readChars line (t ++ rest) { finished, startLine := start } =
      readChars line rest { finished, pending := t.reverse, startLine := line } := by
  obtain ⟨c, hc, hblank, hslash⟩ := hhead
  obtain ⟨t, rfl⟩ := List.head?_eq_some_iff.mp hc
  have hcomment :
      ({ finished, startLine := start } : Scan).startsComment c (t ++ rest) = false := by
    simp [startsComment, Statement.commentMarker, List.isPrefixOf, hslash.symm]
  have hpush : ({ finished, startLine := start } : Scan).push line c =
      { finished, pending := [c], startLine := line } := rfl
  have hpending : Text.allBlank [c] = false := by simp [Text.allBlank, hblank]
  rw [List.cons_append, readChars_cons_of_plain line rfl hcomment,
    readPlain_of_isPlain line rfl (ht c List.mem_cons_self), hpush,
    readChars_of_isPlain line rfl rfl hpending fun d hd ↦ ht d (List.mem_cons_of_mem c hd)]
  simp

end Read

/-! ## Whole lines -/

theorem flush_of_isTrimmed {s : Scan} {t : Text} (hpending : s.pending.reverse = t)
    (ht : t.IsTrimmed) (hne : t ≠ []) (hsemicolon : t ≠ [';']) :
    s.flush = { s with finished := ⟨t, s.startLine⟩ :: s.finished, pending := [] } := by
  have htext : s.text = t := by rw [text, hpending, ht.trim_eq]
  rw [flush, htext, if_neg (not_or.mpr ⟨hne, hsemicolon⟩)]

/-- A line that is scanned as one statement. -/
def IsWhole (t : Text) : Prop :=
  ∀ finished start line, readLine { finished, startLine := start } line t =
    { finished := ⟨t, line⟩ :: finished, startLine := line }

theorem isWhole_of_readChars {t : Text} (ht : t.IsTrimmed)
    (h : ∀ finished start line, readChars line t { finished, startLine := start } =
      { finished := ⟨t, line⟩ :: finished, startLine := line }) : IsWhole t := by
  intro finished start line
  rw [readLine, ht.trim_eq, h]
  rfl

theorem isWhole_closer : IsWhole ['}'] := by
  have htrimmed : Text.IsTrimmed ['}'] := by
    constructor
    · rintro c ⟨⟩
      decide
    · rintro c ⟨⟩
      decide
  apply isWhole_of_readChars htrimmed
  intro finished start line
  have hflush : flush { finished, startLine := start } = { finished, startLine := start } := rfl
  have hread : readPlain { finished, startLine := start } line '}' [] =
      flush { finished, pending := ['}'], startLine := line } := by
    simp only [readPlain, hflush]
    rfl
  rw [readChars_cons_of_plain line rfl rfl, hread,
    flush_of_isTrimmed (t := ['}']) rfl htrimmed (by decide) (by decide)]
  rfl

theorem flushOpener_eq_flush {s : Scan} (h : s.text ≠ ['{']) : s.flushOpener = s.flush := by
  unfold flushOpener
  split
  · rfl
  · rw [if_neg fun hand ↦ h hand.1]

section Whole

variable {t : Text} (ht : ∀ c ∈ t, isPlain c = true)
  (hhead : ∃ c, t.head? = some c ∧ Text.isBlank c = false ∧ c ≠ '/')
include ht hhead

omit ht in
theorem allBlank_reverse_append (u : Text) : Text.allBlank (u ++ t.reverse) = false := by
  obtain ⟨c, hc, hblank, -⟩ := hhead
  simp only [Text.allBlank, List.all_eq_false]
  exact ⟨c, by simp [List.mem_of_head? hc], by simp [hblank]⟩

theorem isWhole_opener : IsWhole (t ++ ['{']) := by
  have htrimmed : Text.IsTrimmed (t ++ ['{']) :=
    Text.isTrimmed_append_singleton (hhead.imp fun d hd ↦ ⟨hd.1, hd.2.1⟩) (by decide)
  have hne : t ≠ [] := by
    rintro rfl
    simp at hhead
  have hsemicolon : t ++ ['{'] ≠ [';'] := by
    intro heq
    simpa using congrArg List.getLast? heq
  apply isWhole_of_readChars htrimmed
  intro finished start line
  have hpending : Text.allBlank t.reverse = false := allBlank_reverse_append hhead []
  have hread : readPlain { finished, pending := t.reverse, startLine := line } line '{' [] =
      (push { finished, pending := t.reverse, startLine := line } line '{').flushOpener := by
    simp [readPlain, opensQuote]
  rw [readChars_first line ht hhead,
    readChars_cons_of_plain line rfl (startsComment_of_pending hpending), hread,
    push_of_pending line hpending, flushOpener_eq_flush (by simp [text, htrimmed.trim_eq, hne]),
    flush_of_isTrimmed (t := t ++ ['{']) (by simp) htrimmed (by simp) hsemicolon]
  rfl

theorem isWhole_declaration (hword : ∀ c, t.getLast? = some c → Text.isAlphanumeric c = false)
    (value : Text) : IsWhole (t ++ Value.quote value ++ [';']) := by
  have htrimmed : Text.IsTrimmed (t ++ Value.quote value ++ [';']) := by
    obtain ⟨d, hd, hblank, -⟩ := hhead
    exact Text.isTrimmed_append_singleton ⟨d, by simp [hd], hblank⟩ (by decide)
  have hsplit : t ++ Value.quote value ++ [';'] =
      t ++ '"' :: (Value.encode value ++ '"' :: ';' :: []) := by
    simp [Value.quote]
  rw [hsplit] at htrimmed ⊢
  apply isWhole_of_readChars htrimmed
  intro finished start line
  have hblank := allBlank_reverse_append hhead
  -- No word stands before the quote, so it is no apostrophe.
  have hopen : ∀ rest,
      readPlain { finished, pending := t.reverse, startLine := line } line '"' rest =
        { finished, pending := '"' :: t.reverse, startLine := line, quote := some '"' } := by
    intro rest
    have hquotes : opensQuote { finished, pending := t.reverse, startLine := line } '"' rest =
        true := by
      unfold opensQuote followsWord
      dsimp only
      split
      · rfl
      · next c earlier heq =>
        rw [hword c (by simpa using congrArg List.head? heq)]
        rfl
    rw [readPlain, if_pos hquotes, push_of_pending line (hblank [])]
  have hend : ∀ pending, Text.allBlank pending = false →
      readPlain { finished, pending, startLine := line } line ';' [] =
        flush { finished, pending := ';' :: pending, startLine := line } := by
    intro pending hpending
    rw [← push_of_pending (s := { finished, pending, startLine := line }) line hpending]
    simp [readPlain, opensQuote]
  have hwritten : Text.allBlank ((Value.encode value).reverse ++ '"' :: t.reverse) = false := by
    simpa using hblank ((Value.encode value).reverse ++ ['"'])
  have hclosed : Text.allBlank ('"' :: ((Value.encode value).reverse ++ '"' :: t.reverse)) =
      false := by
    simpa using hblank ('"' :: ((Value.encode value).reverse ++ ['"']))
  rw [readChars_first line ht hhead,
    readChars_cons_of_plain line rfl (startsComment_of_pending (hblank [])), hopen,
    readChars_encode line rfl (hblank ['"']), readChars_cons_of_closing line rfl (by decide),
    push_of_pending line hwritten]
  dsimp only
  rw [readChars_cons_of_plain line rfl (startsComment_of_pending hclosed), hend _ hclosed,
    flush_of_isTrimmed (by simp) htrimmed (by simp) ?_]
  · rfl
  · intro heq
    have hlength := congrArg List.length heq
    simp only [List.length_append, List.length_cons, List.length_nil] at hlength
    omega

end Whole

theorem IsWhole.ne_nil {t : Text} (h : IsWhole t) : t ≠ [] := by
  rintro rfl
  have hread := congrArg Scan.finished (h [] 0 0)
  cases hread

/-- Whole lines come out one by one, the latest first. -/
theorem foldl_readLine {ls : List (Nat × Text)} (h : ∀ l ∈ ls, IsWhole l.2)
    (finished : List Statement) (start : Nat) :
    ∃ last, ls.foldl (fun s l ↦ s.readLine l.1 l.2) ({ finished, startLine := start } : Scan) =
      { finished := (ls.map fun l ↦ ⟨l.2, l.1⟩).reverse ++ finished, startLine := last } := by
  induction ls generalizing finished start with
  | nil => exact ⟨start, rfl⟩
  | cons l ls ih =>
    obtain ⟨last, hlast⟩ := ih (fun l' hl' ↦ h l' (List.mem_cons_of_mem l hl'))
      (⟨l.2, l.1⟩ :: finished) l.1
    refine ⟨last, ?_⟩
    rw [List.foldl_cons, h l List.mem_cons_self, hlast]
    simp

end Scan

/-- The statements of lines that hold one statement each. -/
def Statement.ofLines (ls : List Text) : List Statement :=
  (ls.zipIdx 1).map fun l ↦ ⟨l.1, l.2⟩

theorem Statement.scan_joinLines {ls : List Text} (h : ∀ t ∈ ls, Scan.IsWhole t ∧ t.IsLine) :
    Statement.scan (joinLines ls) = .ok (Statement.ofLines ls) := by
  have hlines : Text.lines (joinLines ls) = ls :=
    Text.lines_joinLines fun t ht ↦ ⟨(h t ht).2, (h t ht).1.ne_nil⟩
  have hwhole : ∀ l ∈ (ls.zipIdx 1).map Prod.swap, Scan.IsWhole l.2 := by
    intro l hl
    obtain ⟨l', hl', rfl⟩ := List.mem_map.mp hl
    exact (h _ (List.fst_mem_of_mem_zipIdx hl')).1
  obtain ⟨last, hlast⟩ := Scan.foldl_readLine hwhole [] 0
  rw [Statement.scan, hlines, Statement.scanLines, hlast, Statement.ofLines]
  simp [Scan.finish, Scan.flush, Scan.text, Text.trim, Text.trimStart, Text.trimEnd,
    Function.comp_def]

end StyledMarkup
