import StyledMarkup.Proofs.Statement.Mode

/-!
# Statements that end by themselves

A text completes a statement when the automaton reads it up to its last character and stops there.
Between two statements such a text is read as one statement, whatever follows it on its line, and
the scan is between two statements again.
-/

namespace StyledMarkup

namespace Text

theorem trimStart_blanks_append {blanks t : Text} (hblanks : allBlank blanks = true)
    (ht : t.IsTrimmed) (hne : t ≠ []) : trimStart (blanks ++ t) = t := by
  have hblanks : ∀ c ∈ blanks, isBlank c = true := by simpa [allBlank] using hblanks
  obtain ⟨c, rest, rfl⟩ := List.exists_cons_of_ne_nil hne
  have hc : isBlank c = false := ht.1 c rfl
  rw [trimStart, List.dropWhile_append_of_pos hblanks]
  simp [hc]

/-- A front that ends in a solid character. -/
theorem IsTrimmed.front {t u : Text} {c : Char} (h : (t ++ c :: u).IsTrimmed)
    (hc : isBlank c = false) : (t ++ [c]).IsTrimmed := by
  refine ⟨fun d hd ↦ h.1 d ?_, fun d hd ↦ ?_⟩
  · cases t with
    | nil => simpa using hd
    | cons e t => simpa using hd
  · obtain rfl : c = d := by simpa using hd
    exact hc

end Text

namespace Scan

theorem finished_flush_push_closer (s : Scan) (line : Nat) :
    (s.flush.push line '}').flush.finished = ⟨['}'], line⟩ :: s.flush.finished := by
  have htext : (s.flush.push line '}').text = ['}'] := by
    rw [text, push, (flush_clean s).1]
    rfl
  rw [flush_of_text (by simp [htext]) (by simp [htext]), htext]
  simp [push, (flush_clean s).1, Text.allBlank]

/-- The scan stands between two statements, and a lone opening brace would be one too. -/
structure Idle (s : Scan) : Prop where
  blank : Text.allBlank s.pending = true
  quote : s.quote = none
  depth : s.depth = 0
  settled : s.finished.head?.any takesBrace = false

theorem idle_empty : ({} : Scan).Idle :=
  ⟨rfl, rfl, rfl, rfl⟩

theorem Idle.mode_eq {s : Scan} (h : s.Idle) : s.mode = {} := by
  have hword : s.followsWord = false := by
    have hblank := h.blank
    unfold followsWord
    split
    · rfl
    · next c rest hpending =>
      simp only [hpending, Text.allBlank, List.all_cons, Bool.and_eq_true] at hblank
      exact Text.isAlphanumeric_of_isBlank hblank.1
  rw [mode, h.quote, h.depth, hword]

theorem Idle.push_blank {s : Scan} (h : s.Idle) (line : Nat) {c : Char}
    (hc : Text.isBlank c = true) : (s.push line c).Idle := by
  refine ⟨?_, h.quote, h.depth, h.settled⟩
  have hblank := h.blank
  simp only [Text.allBlank] at hblank
  simp [push, Text.allBlank, hc, hblank]

theorem flushOpener_of_settled {s : Scan} (h : s.finished.head?.any takesBrace = false) :
    s.flushOpener = s.flush := by
  unfold flushOpener
  split
  · rfl
  · next previous earlier hfinished =>
    have hbrace : takesBrace previous = false := by simpa [hfinished] using h
    simp [hbrace]

theorem flushOpener_clean (s : Scan) :
    s.flushOpener.pending = [] ∧ s.flushOpener.quote = s.quote ∧ s.flushOpener.depth = s.depth := by
  unfold flushOpener
  split
  · exact flush_clean s
  · split
    · exact ⟨rfl, rfl, rfl⟩
    · exact flush_clean s

theorem finish_endLine {s : Scan} (hquote : s.quote = none) :
    s.endLine.finish = .ok s.flush.finished.reverse := by
  rw [finish, (endLine_keeps s).1, hquote, flush_endLine]
  rfl

/-- The text is a statement that ends with its last character and not before. The flag says whether
an apostrophe follows it on its line. -/
inductive Completes (ahead : Bool) : Text → Prop
  | closer : Completes ahead ['}']
  | ended {u : Text} {c : Char} {m : Mode} (hc : c = ';' ∨ c = '{') (hne : u ++ [c] ≠ [';'])
    (hread : Mode.read ahead u {} = some m) (hquote : m.quote = none) (hdepth : m.depth = 0) :
    Completes ahead (u ++ [c])

section Pushed

variable (s : Scan) (line : Nat) (t : Text) (m : Mode)

@[simp] theorem finished_pushAll : (s.pushAll line t).finished = s.finished := by
  induction t generalizing s with
  | nil => rfl
  | cons c t ih => exact ih (s.push line c)

@[simp] theorem pending_pushAll : (s.pushAll line t).pending = t.reverse ++ s.pending := by
  by_cases hne : t = []
  · simp [hne, pushAll]
  · simp [pushAll_eq s line hne]

theorem push_pushAll (c : Char) :
    ((s.pushAll line t).turnTo m).push line c = (s.pushAll line (t ++ [c])).turnTo m := by
  rw [pushAll, pushAll, List.foldl_append]
  rfl

/-- Blanks before a statement are dropped. -/
theorem text_pushAll {t : Text} (hblank : Text.allBlank s.pending = true) (ht : t.IsTrimmed) :
    ((s.pushAll line t).turnTo m).text = t := by
  rw [text, turnTo, pending_pushAll, List.reverse_append, List.reverse_reverse,
    ht.trim_of_pads ⟨_, [], (Text.allBlank_reverse _).trans hblank, rfl, (List.append_nil _).symm⟩]

theorem begun_pushAll {t : Text} (hblank : Text.allBlank s.pending = true) (ht : t.IsTrimmed)
    (hne : t ≠ []) : ((s.pushAll line t).turnTo m).begun = t := by
  rw [begun, turnTo, pending_pushAll, List.reverse_append, List.reverse_reverse,
    Text.trimStart_blanks_append ((Text.allBlank_reverse _).trans hblank) ht hne]

theorem flush_pushAll {t : Text} (hblank : Text.allBlank s.pending = true) (ht : t.IsTrimmed)
    (hne : t ≠ []) (hsemicolon : t ≠ [';']) :
    ((s.pushAll line t).turnTo m).flush =
      (between (⟨t, line⟩ :: s.finished) line).turnTo m := by
  have htext := text_pushAll s line m hblank ht
  rw [flush_of_text (by rwa [htext]) (by rwa [htext]), htext]
  simp [turnTo, between, pushAll_eq s line hne, hblank]

/-- A semicolon or an opening brace ends the statement that was pushed before it. -/
theorem readPlain_pushAll {m : Mode} (hdepth : m.depth = 0)
    (hsettled : s.finished.head?.any takesBrace = false) {c : Char} (hc : c = ';' ∨ c = '{')
    (rest : Text) :
    ((s.pushAll line t).turnTo m).readPlain line c rest =
      ((s.pushAll line (t ++ [c])).turnTo m).flush := by
  rw [← push_pushAll]
  rcases hc with rfl | rfl
  · simp [readPlain, opensQuote, turnTo, hdepth]
  · have hopener : ((s.pushAll line t).turnTo m).readPlain line '{' rest =
        (((s.pushAll line t).turnTo m).push line '{').flushOpener := by
      simp [readPlain, opensQuote, turnTo, hdepth]
    exact hopener.trans (flushOpener_of_settled (by simpa [turnTo, push] using hsettled))

theorem Unmarked.pushAll {s : Scan} {t rest : Text} (h : Unmarked s (t ++ rest)) :
    Unmarked ((s.pushAll line t).turnTo m) rest := by
  cases t with
  | nil => exact h
  | cons c t =>
    refine Unmarked.push h t.reverse ?_ rest
    simp [turnTo]

end Pushed

theorem Completes.ne_nil {ahead : Bool} {t : Text} (h : Completes ahead t) : t ≠ [] := by
  cases h <;> simp

theorem Idle.readChars_completes {s : Scan} (hs : s.Idle) {t : Text} (after : Text)
    (h : Completes (after.contains '\'') t) (ht : t.IsTrimmed)
    (hcomment : Statement.commentMarker.isPrefixOf (t ++ after) = false) (line : Nat) :
    readChars line (t ++ after) s =
      readChars line after (between (⟨t, line⟩ :: s.finished) line) := by
  have hne := h.ne_nil
  have hunmarked : Unmarked s (t ++ after) := by
    refine fun _ ↦ ⟨?_, hcomment⟩
    obtain ⟨c, rest, rfl⟩ := List.exists_cons_of_ne_nil hne
    simpa using ht.1 c rfl
  cases h with
  | closer =>
    have hstart : s.startsComment '}' after = false := startsComment_of_unmarked hunmarked
    have hflush : s.flush = { s with pending := [] } := by
      have hblank : s.text = [] := s.text_eq_nil ((begun_eq_nil_iff s).mpr hs.blank)
      rw [flush, if_pos (Or.inl hblank)]
    have hread : s.readPlain line '}' after = (s.flush.push line '}').flush := by
      simp [readPlain, opensQuote, hs.depth]
    rw [List.singleton_append, readChars_cons_of_plain line hs.quote hstart, hread, hflush]
    simp only [push, hs.quote, hs.depth]
    rfl
  | @ended u c m hc hsemicolon hread hquote hdepth =>
    have hescaped : m.escaped = false := by
      have := Mode.quote_of_escaped (by simp) hread
      simpa [hquote] using this
    have hahead : (c :: after).contains '\'' = after.contains '\'' := by
      rcases hc with rfl | rfl <;> simp [List.contains_eq_mem]
    rw [← hs.mode_eq, ← hahead] at hread
    have hsplit : u ++ [c] ++ after = u ++ c :: after := by simp
    rw [hsplit] at hunmarked ⊢
    have hstart := startsComment_of_unmarked (hunmarked.pushAll line m)
    have hplain := readPlain_pushAll s line u hdepth hs.settled hc after
    rw [readChars_of_read line _ hread hescaped hunmarked,
      readChars_cons_of_plain line hquote hstart, hplain,
      flush_pushAll s line m hs.blank ht hne hsemicolon, turnTo, hquote, hdepth]
    rfl

theorem Completes.idle {t : Text} (h : Completes false t) (earlier : List Statement)
    (line start : Nat) : (between (⟨t, line⟩ :: earlier) start).Idle := by
  refine ⟨rfl, rfl, rfl, ?_⟩
  cases h with
  | closer => rfl
  | ended hc =>
    refine takesBrace_of_endsWith (hc.imp_right Or.inl) ?_
    simp [Text.endsWith]

section Line

variable {s : Scan} (hs : s.Idle) {t : Text} (ht : t.IsTrimmed)
  (hcomment : Statement.commentMarker.isPrefixOf t = false) (line : Nat)
include hs ht hcomment

theorem Idle.readChars_line (h : Completes false t) :
    readChars line t s = between (⟨t, line⟩ :: s.finished) line := by
  have hread := hs.readChars_completes [] h ht (by simpa using hcomment) line
  rwa [List.append_nil, readChars] at hread

/-- The last statement of a source may leave a parenthesis open. -/
theorem Idle.finish_line {m : Mode} (hne : t ≠ []) (hread : Mode.read false t {} = some m)
    (hquote : m.quote = none) :
    (readChars line t s).endLine.finish = .ok (⟨t, line⟩ :: s.finished).reverse := by
  have hescaped : m.escaped = false := by
    have hopen := Mode.quote_of_escaped (by simp) hread
    simpa [hquote] using hopen
  have hunmarked : Unmarked s t := by
    refine fun _ ↦ ⟨?_, hcomment⟩
    obtain ⟨c, rest, rfl⟩ := List.exists_cons_of_ne_nil hne
    simpa using ht.1 c rfl
  have hsemicolon : t ≠ [';'] := by
    rintro rfl
    cases hread
  have hchars := readChars_of_read line [] (by rwa [hs.mode_eq]) hescaped (by simpa using hunmarked)
  rw [List.append_nil, readChars] at hchars
  rw [hchars, finish_endLine hquote, flush_pushAll s line m hs.blank ht hne hsemicolon]
  rfl

end Line

/-- A statement ends in the text when the text stands at the start of a line. The flag says whether
an apostrophe follows it there. -/
def endsStatement (ahead : Bool) (t : Text) : Bool :=
  (Mode.read ahead t {}).isNone

theorem endsStatement_false {ahead : Bool} {t : Text} (h : endsStatement ahead t = true) :
    endsStatement false t = true := by
  cases ahead with
  | false => exact h
  | true =>
    have hnone := Option.isNone_iff_eq_none.mp h
    rcases Mode.read_ahead t {} with hsame | ⟨m, hread, -⟩
    · rw [endsStatement, ← hsame, hnone]
      rfl
    · rw [hread] at hnone
      cases hnone

theorem Completes.of_ends {t : Text} (h : Completes false t) {ahead : Bool}
    (hends : endsStatement ahead t = true) : Completes ahead t := by
  cases ahead with
  | false => exact h
  | true =>
    cases h with
    | closer => exact .closer
    | @ended u c m hc hne hread hquote hdepth =>
      rcases Mode.read_ahead u {} with hsame | ⟨m', hopen, hquote'⟩
      · exact .ended hc hne (hsame.trans hread) hquote hdepth
      · -- the quote that opens in front of the last character keeps the statement from ending
        have hnone := Option.isNone_iff_eq_none.mp hends
        rw [Mode.read_append, Bool.or_true, hopen, Option.bind_some, Mode.read,
          Option.bind_eq_none_iff] at hnone
        cases hstep : m'.step ([].contains '\'' || true) c with
        | none => simp [(Mode.step_eq_none_iff.mp hstep).1] at hquote'
        | some m₁ => cases hnone m₁ hstep

/-! ## Lines with one statement each -/

theorem Idle.foldl_readLine {ls : List (Nat × Text)}
    (hls : ∀ l ∈ ls, Completes false (Text.trim l.2) ∧
      Statement.commentMarker.isPrefixOf (Text.trim l.2) = false) {s : Scan} (hs : s.Idle) :
    (ls.foldl (fun s l ↦ s.readLine l.1 l.2) s).Idle ∧
      (ls.foldl (fun s l ↦ s.readLine l.1 l.2) s).finished =
        (ls.map fun l ↦ (⟨Text.trim l.2, l.1⟩ : Statement)).reverse ++ s.finished := by
  induction ls generalizing s with
  | nil => exact ⟨hs, rfl⟩
  | cons l ls ih =>
    rw [List.forall_mem_cons] at hls
    obtain ⟨⟨hcompletes, hcomment⟩, hls⟩ := hls
    have hread := hs.readChars_line (Text.isTrimmed_trim l.2) hcomment l.1 hcompletes
    have hline : s.readLine l.1 l.2 = between (⟨Text.trim l.2, l.1⟩ :: s.finished) l.1 := by
      rw [readLine, hread]
      rfl
    obtain ⟨hidle, hfinished⟩ := ih hls (hcompletes.idle s.finished l.1 l.1)
    rw [List.foldl_cons, hline]
    refine ⟨hidle, hfinished.trans ?_⟩
    simp [between]

end Scan

/-- Of lines with one statement each, the last may leave a parenthesis open. -/
theorem Statement.scanLines_of_completes {ls : List (Nat × Text)} {front : List Text}
    {last : Option Text} (hls : (ls.map fun l ↦ Text.trim l.2) = front ++ last.toList)
    (hfront : ∀ t ∈ front, Scan.Completes false t)
    (hlast : ∀ t ∈ last, t ≠ [] ∧ ∃ m, Scan.Mode.read false t {} = some m ∧ m.quote = none)
    (hcomment : ∀ l ∈ ls, Statement.commentMarker.isPrefixOf (Text.trim l.2) = false) :
    scanLines ls = .ok (ls.map fun l ↦ ⟨Text.trim l.2, l.1⟩) := by
  obtain ⟨before, after, rfl, rfl, hafter⟩ := List.map_eq_append_iff.mp hls
  rw [List.forall_mem_append] at hcomment
  obtain ⟨hidle, hfinished⟩ := Scan.idle_empty.foldl_readLine fun l hl ↦
    ⟨hfront _ (List.mem_map_of_mem hl), hcomment.1 l hl⟩
  rw [scanLines, List.foldl_append]
  revert hidle hfinished
  generalize before.foldl (fun s l ↦ s.readLine l.1 l.2) ({} : Scan) = s
  intro hidle hfinished
  cases last with
  | none =>
    obtain rfl : after = [] := by simpa using hafter
    have htext : s.text = [] := s.text_eq_nil ((Scan.begun_eq_nil_iff s).mpr hidle.blank)
    simp [Scan.finish, hidle.quote, Scan.flush, htext, hfinished]
  | some t =>
    obtain ⟨l, rfl, rfl⟩ := List.map_eq_singleton_iff.mp hafter
    obtain ⟨hne, m, hread, hquote⟩ := hlast _ rfl
    have hline := hidle.finish_line (Text.isTrimmed_trim l.2) (hcomment.2 l (by simp)) l.1 hne hread
      hquote
    rw [List.foldl_cons, List.foldl_nil, Scan.readLine, hline, hfinished]
    simp

end StyledMarkup
