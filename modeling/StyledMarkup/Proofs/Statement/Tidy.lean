import StyledMarkup.Proofs.Statement.Completes
import StyledMarkup.Proofs.Statement.Locality

/-!
# Statements that leave nothing open

Without apostrophes the automaton needs no look at the rest of a line, so it can be run on the
statement being read as if that stood on a line of its own. At every moment of a scan it is then in
the mode of the scan. It follows that only the last statement of a source can leave a parenthesis
open. Lines that leave nothing open, such as the statements of a mixin, give only such statements
again, however they are joined.
-/

namespace StyledMarkup

namespace Scan

namespace Mode

theorem read_concat {t : Text} {c : Char} (hc : c ≠ '\'') (m : Mode) :
    read false (t ++ [c]) m = (read false t m).bind (step false · c) := by
  have hahead : ([c].contains '\'' || false) = false := by simpa using hc.symm
  rw [read_append, hahead]
  cases read false t m with
  | none => rfl
  | some m₁ => cases hstep : step false m₁ c <;> simp [read, hstep]

theorem step_blank {m : Mode} (hm : ∀ q, m.quote = some q → Text.isBlank q = false) {c : Char}
    (hc : Text.isBlank c = true) (ahead : Bool) :
    m.step ahead c = some { m with escaped := false, word := false } ∨
      m.step ahead c = some { m with word := false } := by
  have hword := Text.isAlphanumeric_of_isBlank hc
  have hne : ∀ d, Text.isBlank d = false → c ≠ d := by
    rintro d hd rfl
    simp [hc] at hd
  unfold step
  cases hquote : m.quote with
  | some q => simp [hword, hne '\\' (by decide), hne q (hm q hquote)]
  | none =>
    simp [hword, isEnd, hne '"' (by decide), hne '\'' (by decide), hne '(' (by decide),
      hne ')' (by decide), hne ';' (by decide), hne '{' (by decide), hne '}' (by decide)]

theorem read_blanks {blanks : Text} (hblanks : ∀ c ∈ blanks, Text.isBlank c = true) {ahead : Bool}
    {m m' : Mode} (hm : ∀ q, m.quote = some q → Text.isBlank q = false)
    (h : read ahead blanks m = some m') : m'.quote = m.quote ∧ m'.depth = m.depth := by
  induction blanks generalizing m with
  | nil =>
    cases h
    exact ⟨rfl, rfl⟩
  | cons c blanks ih =>
    rw [List.forall_mem_cons] at hblanks
    rw [read, Option.bind_eq_some_iff] at h
    obtain ⟨m₁, hstep, hread⟩ := h
    have hsame : m₁.quote = m.quote ∧ m₁.depth = m.depth := by
      rcases step_blank hm hblanks.1 (blanks.contains '\'' || ahead) with heq | heq <;>
        cases hstep.symm.trans heq <;> exact ⟨rfl, rfl⟩
    obtain ⟨hquote, hdepth⟩ := ih hblanks.2 (by simpa [hsame.1] using hm) hread
    exact ⟨hquote.trans hsame.1, hdepth.trans hsame.2⟩

/-- Blanks at the end of a statement open nothing and close nothing. -/
theorem exists_read_trimEnd {t : Text} {m : Mode} (h : read false t {} = some m) :
    ∃ m', read false (Text.trimEnd t) {} = some m' ∧ m'.quote = m.quote ∧ m'.depth = m.depth := by
  obtain ⟨blanks, ht, hblanks⟩ := Text.exists_trimEnd_eq t
  have hahead : (blanks.contains '\'' || false) = false := by
    have hmem : '\'' ∉ blanks := Text.not_mem_of_blanks hblanks (by decide)
    simpa using hmem
  rw [ht, read_append, hahead, Option.bind_eq_some_iff] at h
  obtain ⟨m', hread, hrest⟩ := h
  have hquote : ∀ q, m'.quote = some q → Text.isBlank q = false := by
    intro q hq
    rcases quote_eq (by simp) hread q hq with rfl | rfl <;> decide
  have hsame := read_blanks hblanks hquote hrest
  exact ⟨m', hread, hsame.1.symm, hsame.2.symm⟩

end Mode

/-- The text leaves no quote and no parenthesis open, and if a statement ends in it then only with
its last character. -/
inductive IsTidy (t : Text) : Prop
  | completes (h : Completes false t)
  | settled {m : Mode} (hread : Mode.read false t {} = some m) (hquote : m.quote = none)
    (hdepth : m.depth = 0)

end Scan

def Statement.IsTidy (s : Statement) : Prop :=
  s.isComment = true ∨ Scan.IsTidy s.text

namespace Scan

theorem Completes.endsWith {ahead : Bool} {t : Text} (h : Completes ahead t) :
    t.endsWith ';' = true ∨ t.endsWith '{' = true ∨ t.endsWith '}' = true := by
  cases h with
  | closer => simp [Text.endsWith]
  | ended hc => rcases hc with rfl | rfl <;> simp [Text.endsWith]

/-- A statement that takes a brace ends with that brace. -/
theorem completes_join {previous : Statement} (h : previous.IsTidy)
    (hbrace : takesBrace previous = true) : Completes false (previous.text ++ [' ', '{']) := by
  have htakes : previous.isComment = false ∧ previous.text.endsWith ';' = false ∧
      previous.text.endsWith '{' = false ∧ previous.text.endsWith '}' = false := by
    simpa [takesBrace, and_assoc] using hbrace
  rcases h with hcomment | hcompletes | ⟨hread, hquote, hdepth⟩
  · simp [htakes.1] at hcomment
  · simpa [htakes] using hcompletes.endsWith
  · rename_i m
    have hspace : m.step false ' ' = some { m with word := false } := by
      simp [Mode.step, hquote, isEnd]
      decide
    have hjoined : Mode.read false (previous.text ++ [' ']) {} = some { m with word := false } := by
      simp [Mode.read_concat (c := ' ') (by decide), hread, hspace]
    have hends : Completes false (previous.text ++ [' '] ++ ['{']) :=
      .ended (Or.inr rfl) (fun heq ↦ by simpa using congrArg List.getLast? heq) hjoined hquote
        hdepth
    simpa using hends

/-! ## The automaton and the scan -/

/-- The automaton, run on the statement being read, is in the mode of the scan. Only at the end of a
line may a backslash be waiting for its character, which is then the space that joins the lines. -/
structure Tracks (s : Scan) (escaped : Bool) : Prop where
  read : Mode.read false s.begun {} = some { s.mode with escaped }
  finished : ∀ st ∈ s.finished, st.IsTidy

section Tracks

variable {s s' : Scan} {escaped : Bool} {c : Char}

theorem tracks_of_clean (hpending : s.pending = []) (hquote : s.quote = none)
    (hdepth : s.depth = 0) (hfinished : ∀ st ∈ s.finished, st.IsTidy) : Tracks s false where
  read := by simp [begun, hpending, Text.trimStart, Mode.read, mode, hquote, hdepth, followsWord]
  finished := hfinished

theorem Tracks.mode_of_begun (h : Tracks s escaped) (hnil : s.begun = []) :
    s.mode = {} ∧ escaped = false := by
  have hread := h.read
  simp only [hnil, Mode.read, Option.some.injEq] at hread
  have hescaped : escaped = false := (congrArg Mode.escaped hread).symm
  exact ⟨by rw [hread, hescaped]; rfl, hescaped⟩

theorem Tracks.next (h : Tracks s escaped) (hc : c ≠ '\'') {m : Mode}
    (hstep : ({ s.mode with escaped } : Mode).step false c = some m)
    (hfinished : s'.finished = s.finished) (hpending : s'.pending = c :: s.pending)
    (hquote : s'.quote = m.quote) (hdepth : s'.depth = m.depth) : Tracks s' m.escaped := by
  have hword := Mode.word_of_step hstep
  have hmode : { s'.mode with escaped := m.escaped } = m := by
    simp [mode, followsWord, hpending, hquote, hdepth, ← hword]
  have hbegun : s'.begun = (s.push 0 c).begun := by rw [begun, begun, hpending, push]
  refine ⟨?_, hfinished ▸ h.finished⟩
  rw [hmode, hbegun]
  by_cases hblank : s.begun ≠ [] ∨ Text.isBlank c = false
  · rw [begun_push s 0 hblank, Mode.read_concat hc, h.read]
    exact hstep
  · -- a blank before the first character of a statement
    simp only [not_or, not_not, Bool.not_eq_false] at hblank
    obtain ⟨hclean, rfl⟩ := h.mode_of_begun hblank.1
    rw [begun_push_blank s 0 hblank.1 hblank.2, Mode.read]
    rw [hclean] at hstep
    rcases Mode.step_blank (m := {}) (by simp) hblank.2 false with heq | heq <;>
      exact heq.symm.trans hstep

theorem Tracks.isTidy_text (h : Tracks s escaped) (hquote : s.quote = none) (hdepth : s.depth = 0) :
    IsTidy s.text := by
  obtain ⟨m, hread, hsame⟩ := Mode.exists_read_trimEnd h.read
  exact .settled hread (hsame.1.trans hquote) (hsame.2.trans hdepth)

theorem isTidy_of_mem_flush (h : ∀ st ∈ s.finished, st.IsTidy)
    (htext : s.text ≠ [';'] → IsTidy s.text) : ∀ st ∈ s.flush.finished, st.IsTidy := by
  unfold Scan.flush
  split
  · exact h
  · next hne =>
    rw [not_or] at hne
    exact List.forall_mem_cons.mpr ⟨Or.inr (htext hne.2), h⟩

theorem tracks_flush (h : ∀ st ∈ s.finished, st.IsTidy) (hquote : s.quote = none)
    (hdepth : s.depth = 0) (htext : s.text ≠ [';'] → IsTidy s.text) : Tracks s.flush false := by
  obtain ⟨hpending, hquote', hdepth'⟩ := flush_clean s
  exact tracks_of_clean hpending (hquote'.trans hquote) (hdepth'.trans hdepth)
    (isTidy_of_mem_flush h htext)

section Ends

variable (h : Tracks s false) (hquote : s.quote = none) (hdepth : s.depth = 0) (line : Nat)
include h hquote hdepth

theorem Tracks.isTidy_push (hc : c = ';' ∨ c = '{') (hne : (s.push line c).text ≠ [';']) :
    IsTidy (s.push line c).text := by
  have hblank : Text.isBlank c = false := by rcases hc with rfl | rfl <;> decide
  rw [text_push s line hblank] at hne ⊢
  exact .completes (.ended hc hne h.read hquote hdepth)

theorem Tracks.opener : Tracks (s.push line '{').flushOpener false := by
  unfold Scan.flushOpener
  split
  · exact tracks_flush h.finished hquote hdepth (h.isTidy_push hquote hdepth line (Or.inr rfl))
  · next previous earlier hfinished =>
    split
    · next hjoin =>
      have hold : ∀ st ∈ previous :: earlier, st.IsTidy := hfinished ▸ h.finished
      rw [List.forall_mem_cons] at hold
      refine tracks_of_clean rfl hquote hdepth (List.forall_mem_cons.mpr ⟨Or.inr ?_, hold.2⟩)
      exact .completes (completes_join hold.1 hjoin.2)
    · exact tracks_flush h.finished hquote hdepth (h.isTidy_push hquote hdepth line (Or.inr rfl))

theorem Tracks.closer : Tracks (s.flush.push line '}').flush false := by
  have hflush := tracks_flush h.finished hquote hdepth fun _ ↦ h.isTidy_text hquote hdepth
  obtain ⟨hpending, hquote', hdepth'⟩ := flush_clean s
  refine tracks_flush hflush.finished (hquote'.trans hquote) (hdepth'.trans hdepth) fun _ ↦ ?_
  have htext : (s.flush.push line '}').text = ['}'] := by
    rw [text, push, hpending]
    rfl
  rw [htext]
  exact .completes .closer

end Ends

/-! ## Lines -/

theorem Tracks.readPlain (h : Tracks s false) (hquote : s.quote = none) (line : Nat)
    (hc : c ≠ '\'') {rest : Text} (hrest : '\'' ∉ rest) :
    Tracks (s.readPlain line c rest) false := by
  have hahead : rest.contains '\'' = false := by simpa using hrest
  cases hstep : s.mode.step false c with
  | some m =>
    have hplain : m.escaped = false := by
      simp only [Mode.step, mode, hquote] at hstep
      grind
    rw [readPlain_of_step line hquote (hahead ▸ hstep), ← hplain]
    exact h.next hc hstep rfl rfl rfl rfl
  | none =>
    obtain ⟨-, hdepth, hend⟩ := Mode.step_eq_none_iff.mp hstep
    have hcases : c = ';' ∨ c = '{' ∨ c = '}' := by simpa [isEnd, or_assoc] using hend
    change s.depth = 0 at hdepth
    rcases hcases with rfl | rfl | rfl
    · have hread : s.readPlain line ';' rest = (s.push line ';').flush := by
        simp [Scan.readPlain, opensQuote, hdepth]
      rw [hread]
      exact tracks_flush h.finished hquote hdepth
        (h.isTidy_push hquote hdepth line (Or.inl rfl))
    · have hread : s.readPlain line '{' rest = (s.push line '{').flushOpener := by
        simp [Scan.readPlain, opensQuote, hdepth]
      rw [hread]
      exact h.opener hquote hdepth line
    · have hread : s.readPlain line '}' rest = (s.flush.push line '}').flush := by
        simp [Scan.readPlain, opensQuote, hdepth]
      rw [hread]
      exact h.closer hquote hdepth line

theorem Tracks.comment (h : Tracks s false) {rest : Text} (hquote : s.quote = none)
    (hstart : s.startsComment c rest = true) (line : Nat) :
    Tracks (s.comment line (c :: rest)) false := by
  rw [startsComment, Bool.and_eq_true, ← begun_eq_nil_iff] at hstart
  have hdepth : s.depth = 0 := congrArg Mode.depth (h.mode_of_begun hstart.1).1
  refine tracks_of_clean rfl hquote hdepth (List.forall_mem_cons.mpr ⟨Or.inl ?_, h.finished⟩)
  rw [Statement.isComment, List.isPrefixOf_iff_prefix]
  exact Text.isPrefix_trim (by decide) (by decide) (by decide)
    (List.isPrefixOf_iff_prefix.mp hstart.2)

section Quoted

variable {q : Char} (hq : s.quote = some q) (line : Nat)
include hq

theorem Tracks.backslash (h : Tracks s false) : Tracks (s.push line '\\') true :=
  h.next (by decide) (m := { s.mode with escaped := true, word := Text.isAlphanumeric '\\' })
    (by simp [Mode.step, mode, hq]) rfl rfl rfl rfl

theorem Tracks.taken (h : Tracks (s.push line '\\') true) (hc : c ≠ '\'') :
    Tracks ((s.push line '\\').push line c) false :=
  h.next hc (m := { s.mode with word := Text.isAlphanumeric c })
    (by simp [Mode.step, mode, push, hq]) rfl rfl rfl rfl

theorem Tracks.closing (h : Tracks s false) (hc : q ≠ '\'') (hbackslash : q ≠ '\\') :
    Tracks { s.push line q with quote := none } false :=
  h.next hc (m := { s.mode with quote := none, word := Text.isAlphanumeric q })
    (by simp [Mode.step, mode, hq, hbackslash]) rfl rfl rfl rfl

theorem Tracks.inside (h : Tracks s false) (hc : c ≠ '\'') (hbackslash : c ≠ '\\') (hne : c ≠ q) :
    Tracks (s.push line c) false :=
  h.next hc (m := { s.mode with word := Text.isAlphanumeric c })
    (by simp [Mode.step, mode, hq, hbackslash, hne]) rfl rfl rfl rfl

end Quoted

theorem Tracks.readChars (line : Nat) {t : Text} (h : Tracks s false) (ht : '\'' ∉ t) :
    ∃ escaped, Tracks (readChars line t s) escaped := by
  fun_induction Scan.readChars line t s with
  | case1 s => exact ⟨false, h⟩
  | case2 s q hq => exact ⟨true, h.backslash hq line⟩
  | case3 s q hq escaped rest ih =>
    simp only [List.mem_cons, not_or] at ht
    exact ih ((h.backslash hq line).taken hq line (Ne.symm ht.2.1)) ht.2.2
  | case4 rest s q hq hbackslash ih =>
    obtain ⟨hc, hrest⟩ := List.ne_and_not_mem_of_not_mem_cons ht
    exact ih (h.closing hq line hc.symm hbackslash) hrest
  | case5 c rest s q hq hbackslash hc ih =>
    obtain ⟨hc', hrest⟩ := List.ne_and_not_mem_of_not_mem_cons ht
    exact ih (h.inside hq line hc'.symm hbackslash hc) hrest
  | case6 c rest s hquote hstart => exact ⟨false, h.comment hquote hstart line⟩
  | case7 c rest s hquote hstart ih =>
    obtain ⟨hc, hrest⟩ := List.ne_and_not_mem_of_not_mem_cons ht
    exact ih (h.readPlain hquote line hc.symm hrest) hrest

/-- A backslash at the end of a line takes the joining space along. -/
theorem Tracks.join (h : Tracks s escaped) :
    Tracks { s with pending := ' ' :: s.pending } false := by
  have hq : ∀ q, s.quote = some q → Text.isBlank q = false := by
    intro q hq
    rcases Mode.quote_eq (by simp) h.read q hq with rfl | rfl <;> decide
  cases escaped with
  | false =>
    refine h.next (m := { s.mode with word := false }) (by decide) ?_ rfl rfl rfl rfl
    rcases Mode.step_blank (m := s.mode) hq (c := ' ') (by decide) false with heq | heq
    · exact heq
    · exact heq
  | true =>
    have hopen : s.quote ≠ none := Mode.quote_of_escaped (by simp) h.read rfl
    obtain ⟨q, hquote⟩ := Option.ne_none_iff_exists'.mp hopen
    exact h.next (m := { s.mode with word := Text.isAlphanumeric ' ' }) (by decide)
      (by simp [Mode.step, mode, hquote]) rfl rfl rfl rfl

theorem Tracks.endLine (h : Tracks s escaped) : Tracks s.endLine false := by
  unfold Scan.endLine
  split
  · split
    · next hpending =>
      obtain ⟨-, rfl⟩ := h.mode_of_begun (by simp [begun, hpending, Text.trimStart])
      exact h
    · exact h.join
  · next hcontinued =>
    simp only [isContinued, Bool.not_eq_true, Bool.or_eq_false_iff, Option.isSome_eq_false_iff,
      Option.isNone_iff_eq_none, bne_eq_false_iff_eq, and_assoc] at hcontinued
    exact tracks_flush h.finished hcontinued.1 hcontinued.2.1 fun _ ↦
      h.isTidy_text hcontinued.1 hcontinued.2.1

theorem Tracks.readLine (h : Tracks s false) (line : Nat) {t : Text} (ht : '\'' ∉ t) :
    Tracks (s.readLine line t) false := by
  obtain ⟨escaped, hread⟩ := h.readChars line (t := Text.trim t)
    fun hmem ↦ ht ((Text.trim_isInfix t).subset hmem)
  exact hread.endLine

theorem Tracks.foldl_readLine {lines : List (Nat × Text)} (hlines : ∀ l ∈ lines, '\'' ∉ l.2)
    (h : Tracks s false) : Tracks (lines.foldl (fun s l ↦ s.readLine l.1 l.2) s) false := by
  induction lines generalizing s with
  | nil => exact h
  | cons l lines ih =>
    rw [List.forall_mem_cons] at hlines
    exact ih hlines.2 (h.readLine l.1 hlines.1)

end Tracks

/-! ## Tidy lines -/

section Calm

variable {s : Scan} (line : Nat)

theorem followsWord_endLine (s : Scan) : s.endLine.followsWord = false := by
  unfold endLine
  split
  · split
    · next hpending => simp [followsWord, hpending]
    · simp only [followsWord]
      decide
  · simp [followsWord, (flush_clean s).1]

theorem readPlain_keeps {c : Char} (hc : isEnd c = true) (hdepth : s.depth = 0) (rest : Text) :
    (s.readPlain line c rest).quote = s.quote ∧ (s.readPlain line c rest).depth = 0 := by
  have hcases : c = ';' ∨ c = '{' ∨ c = '}' := by simpa [isEnd, or_assoc] using hc
  rcases hcases with rfl | rfl | rfl
  · simp [readPlain, opensQuote, hdepth, (flush_clean _).2.1, (flush_clean _).2.2, push]
  · simp [readPlain, opensQuote, hdepth, (flushOpener_clean _).2.1, (flushOpener_clean _).2.2, push]
  · simp [readPlain, opensQuote, hdepth, (flush_clean _).2.1, (flush_clean _).2.2, push]

/-- A tidy text leaves nothing open, also when it goes on with a statement that has begun. -/
theorem readChars_keeps (hs : s.mode = {}) {t : Text} (ht : IsTidy t) (hmarked : Unmarked s t) :
    (readChars line t s).quote = none ∧ (readChars line t s).depth = 0 := by
  have hquote : s.quote = none := congrArg Mode.quote hs
  have hdepth : s.depth = 0 := congrArg Mode.depth hs
  have hescaped : ∀ {u : Text} {m : Mode}, Mode.read false u {} = some m → m.quote = none →
      m.escaped = false := by
    intro u m hread hquote
    have hopen := Mode.quote_of_escaped (by simp) hread
    simpa [hquote] using hopen
  -- the character that ends the statement is the last one
  have hend : ∀ {s : Scan} {c : Char}, s.quote = none → s.depth = 0 → isEnd c = true →
      (readChars line [c] s).quote = none ∧ (readChars line [c] s).depth = 0 := by
    intro s c hquote hdepth hc
    have hstart : s.startsComment c [] = false := by
      simp [startsComment, Statement.commentMarker, List.isPrefixOf]
    rw [readChars_cons_of_plain line hquote hstart, readChars, ← hquote]
    exact readPlain_keeps line hc hdepth []
  cases ht with
  | settled hread hquote' hdepth' =>
    have hchars := readChars_of_read line [] (by rwa [hs]) (hescaped hread hquote')
      (by simpa using hmarked)
    rw [List.append_nil, readChars] at hchars
    rw [hchars]
    exact ⟨hquote', hdepth'⟩
  | completes h =>
    cases h with
    | closer => exact hend hquote hdepth (by decide)
    | @ended u c m hc hne hread hquote' hdepth' =>
      have hahead : [c].contains '\'' = false := by rcases hc with rfl | rfl <;> decide
      rw [readChars_of_read line [c] (by rwa [hs, hahead]) (hescaped hread hquote') hmarked]
      exact hend hquote' hdepth' (by rcases hc with rfl | rfl <;> decide)

theorem mode_readLine (hs : s.mode = {}) {t : Text} (ht : IsTidy t) (htrimmed : t.IsTrimmed)
    (hcomment : Statement.commentMarker.isPrefixOf t = false) : (s.readLine line t).mode = {} := by
  have hmarked : Unmarked s t := by
    refine fun _ ↦ ⟨?_, hcomment⟩
    cases hhead : t.head? with
    | none => rfl
    | some c => simpa using htrimmed.1 c hhead
  obtain ⟨hquote, hdepth⟩ := readChars_keeps line hs ht hmarked
  obtain ⟨hquote', hdepth'⟩ := endLine_keeps (readChars line t s)
  rw [readLine, htrimmed.trim_eq, mode, followsWord_endLine, hquote', hdepth', hquote, hdepth]

end Calm

end Scan

/-! ## Whole scans -/

namespace Statement

theorem flush_of_scanLines {lines : List (Nat × Text)} {statements : List Statement}
    (h : scanLines lines = .ok statements) :
    (lines.foldl (fun s l ↦ s.readLine l.1 l.2) ({} : Scan)).quote = none ∧
      statements =
        (lines.foldl (fun s l ↦ s.readLine l.1 l.2) ({} : Scan)).flush.finished.reverse := by
  simp only [scanLines, Scan.finish] at h
  split at h
  · cases h
  · next hquote => exact ⟨by simpa using hquote, (Except.ok.inj h).symm⟩

variable {lines : List (Nat × Text)} {statements : List Statement}

/-- Only the last statement can leave a parenthesis open, and no statement leaves a quote open. -/
theorem exists_of_scanLines (hlines : ∀ l ∈ lines, '\'' ∉ l.2)
    (h : scanLines lines = .ok statements) :
    ∃ (front : List Statement) (last : Option Statement), statements = front ++ last.toList ∧
      (∀ s ∈ front, s.IsTidy) ∧
      ∀ s ∈ last, ∃ m, Scan.Mode.read false s.text {} = some m ∧ m.quote = none := by
  have htracks := (Scan.tracks_of_clean (s := {}) rfl rfl rfl (by simp)).foldl_readLine hlines
  obtain ⟨hquote, rfl⟩ := flush_of_scanLines h
  revert htracks hquote
  generalize lines.foldl (fun s l ↦ s.readLine l.1 l.2) ({} : Scan) = s
  intro htracks hquote
  have hold : ∀ st ∈ s.finished.reverse, st.IsTidy := by simpa using htracks.finished
  unfold Scan.flush
  split
  · exact ⟨s.finished.reverse, none, by simp, hold, by simp⟩
  · obtain ⟨m, hread, hsame⟩ := Scan.Mode.exists_read_trimEnd htracks.read
    exact ⟨s.finished.reverse, some ⟨s.text, s.startLine⟩, by simp, hold,
      by rintro _ ⟨⟩; exact ⟨m, hread, hsame.1.trans hquote⟩⟩

theorem isTidy_of_scanLines
    (hlines : ∀ l ∈ lines, '\'' ∉ l.2 ∧ l.2.IsTrimmed ∧ commentMarker.isPrefixOf l.2 = false ∧
      Scan.IsTidy l.2)
    (h : scanLines lines = .ok statements) : ∀ s ∈ statements, s.IsTidy := by
  have htracks := (Scan.tracks_of_clean (s := {}) rfl rfl rfl (by simp)).foldl_readLine
    fun l hl ↦ (hlines l hl).1
  have hmode : ∀ s : Scan, s.mode = {} →
      (lines.foldl (fun s l ↦ s.readLine l.1 l.2) s).mode = {} := by
    clear htracks h
    induction lines with
    | nil => exact fun s hs ↦ hs
    | cons l lines ih =>
      intro s hs
      rw [List.forall_mem_cons] at hlines
      obtain ⟨-, htrimmed, hcomment, htidy⟩ := hlines.1
      exact ih hlines.2 _ (Scan.mode_readLine l.1 hs htidy htrimmed hcomment)
  have hcalm := hmode {} rfl
  obtain ⟨hquote, rfl⟩ := flush_of_scanLines h
  have hdepth := congrArg Scan.Mode.depth hcalm
  intro s hs
  exact Scan.isTidy_of_mem_flush htracks.finished
    (fun _ ↦ htracks.isTidy_text hquote hdepth) s (List.mem_reverse.mp hs)

end Statement

end StyledMarkup
