import StyledMarkup.Proofs.Statement.OneLine

/-!
# Reading after other statements

How a line is read depends on the statement being read and on nothing before it, with one exception:
a lone opening brace joins the statement before it. So two scans that differ in the lines of their
statements, or in statements finished long ago, go on in the same way as long as no such brace comes
first.
-/

namespace StyledMarkup

namespace Scan

/-- The statements of a source that ends here. -/
def statements (s : Scan) : List Statement :=
  s.flush.finished.reverse

/-- The second scan stands where the first one stands, after the statements `early`, unless the
first statement of the first scan is a brace that the last of these could take. -/
structure After (early : List Statement) (s s' : Scan) : Prop where
  pending : s'.pending = s.pending
  quote : s'.quote = s.quote
  depth : s'.depth = s.depth
  texts : s'.finished.map Statement.text = (s.finished ++ early).map Statement.text ∨
    early.head?.any takesBrace = true ∧ Holds [] (·.text = ['{']) s

theorem takesBrace_congr {st st' : Statement} (h : st'.text = st.text) :
    takesBrace st' = takesBrace st := by
  rw [takesBrace, takesBrace, Statement.isComment, Statement.isComment, h]

/-- A lone opening brace stays as it is, since it takes no further brace. -/
theorem opener_stays (st : Statement) (h : st.text = ['{']) (htakes : takesBrace st = true) :
    (⟨st.text ++ [' ', '{'], st.line⟩ : Statement).text = ['{'] := by
  rw [takesBrace, h] at htakes
  simp [Text.endsWith] at htakes

theorem any_takesBrace_congr {sts sts' : List Statement}
    (h : sts'.map Statement.text = sts.map Statement.text) :
    sts'.head?.any takesBrace = sts.head?.any takesBrace := by
  cases sts with
  | nil => simp_all
  | cons st sts =>
    obtain ⟨st', sts', rfl, htext, -⟩ := List.map_eq_cons_iff.mp h
    exact takesBrace_congr htext

namespace After

variable {early : List Statement} {s s' : Scan} (h : After early s s') (line line' : Nat)
include h

theorem push (c : Char) : After early (s.push line c) (s'.push line' c) :=
  ⟨congrArg (c :: ·) h.pending, h.quote, h.depth, h.texts⟩

theorem text_eq : s'.text = s.text := by
  rw [text, text, h.pending]

theorem flush : After early s.flush s'.flush := by
  have hholds : Holds [] (·.text = ['{']) s → Holds [] (·.text = ['{']) s.flush := Holds.flush
  unfold Scan.flush at hholds ⊢
  rw [h.text_eq]
  split
  · exact ⟨rfl, h.quote, h.depth, h.texts⟩
  · next hsome =>
    rw [if_neg hsome] at hholds
    refine ⟨rfl, h.quote, h.depth, h.texts.imp (fun htexts ↦ ?_) (And.imp_right hholds)⟩
    simpa using htexts

theorem flushOpener_of_texts
    (htexts : s'.flushOpener.finished.map Statement.text =
        (s.flushOpener.finished ++ early).map Statement.text ∨
      early.head?.any takesBrace = true ∧ Holds [] (·.text = ['{']) s.flushOpener) :
    After early s.flushOpener s'.flushOpener := by
  obtain ⟨hpending, hquote, hdepth⟩ := flushOpener_clean s
  obtain ⟨hpending', hquote', hdepth'⟩ := flushOpener_clean s'
  exact ⟨hpending'.trans hpending.symm, hquote'.trans (h.quote.trans hquote.symm),
    hdepth'.trans (h.depth.trans hdepth.symm), htexts⟩

theorem flushOpener : After early s.flushOpener s'.flushOpener := by
  have hflush : s.flushOpener = s.flush → s'.flushOpener = s'.flush →
      After early s.flushOpener s'.flushOpener := by
    intro heq heq'
    rw [heq, heq']
    exact h.flush
  by_cases hopener : s.text = ['{']
  swap
  · exact hflush (flushOpener_eq_flush hopener) (flushOpener_eq_flush (h.text_eq.trans_ne hopener))
  rcases h.texts with htexts | ⟨hearly, hholds⟩
  swap
  · exact h.flushOpener_of_texts (.inr ⟨hearly, hholds.flushOpener opener_stays⟩)
  -- which of the scans has a statement that the brace can join
  cases hfinished : s.finished with
  | nil =>
    rw [hfinished, List.nil_append] at htexts
    have hheads := any_takesBrace_congr htexts
    by_cases hearly : early.head?.any takesBrace = true
    · refine h.flushOpener_of_texts (.inr ⟨hearly, [], ⟨s.text, s.startLine⟩, ?_, hopener⟩)
      simp [Scan.flushOpener, hfinished, Scan.flush, hopener]
    · refine hflush (flushOpener_of_settled (by simp [hfinished])) (flushOpener_of_settled ?_)
      rw [hheads, Bool.of_not_eq_true hearly]
  | cons previous earlier =>
    rw [hfinished] at htexts
    obtain ⟨previous', earlier', hfinished', hprevious, hearlier⟩ := List.map_eq_cons_iff.mp htexts
    have htakes := takesBrace_congr hprevious
    by_cases hbrace : takesBrace previous = true
    · refine h.flushOpener_of_texts (.inl ?_)
      simp [Scan.flushOpener, hfinished, hfinished', hopener, h.text_eq, htakes, hbrace, hprevious,
        hearlier]
    · have hbrace := Bool.of_not_eq_true hbrace
      exact hflush (flushOpener_of_settled (by simp [hfinished, hbrace]))
        (flushOpener_of_settled (by simp [hfinished', htakes, hbrace]))

theorem comment (t : Text) : After early (s.comment line t) (s'.comment line' t) := by
  have hholds : Holds [] (·.text = ['{']) s → Holds [] (·.text = ['{']) (s.comment line t) :=
    fun hs ↦ hs.append [_] rfl
  refine ⟨rfl, h.quote, h.depth, h.texts.imp (fun htexts ↦ ?_) (And.imp_right hholds)⟩
  simpa [Scan.comment] using htexts

theorem readPlain (c : Char) (rest : Text) :
    After early (s.readPlain line c rest) (s'.readPlain line' c rest) := by
  have hpush := h.push line line' c
  have hopens : s'.opensQuote c rest = s.opensQuote c rest := by
    rw [opensQuote, opensQuote, followsWord, followsWord, h.pending]
  unfold Scan.readPlain
  rw [hopens, h.depth]
  split
  · exact ⟨hpush.pending, rfl, hpush.depth, hpush.texts⟩
  split
  · exact ⟨hpush.pending, hpush.quote, rfl, hpush.texts⟩
  split
  · exact ⟨hpush.pending, hpush.quote, rfl, hpush.texts⟩
  split
  · exact hpush
  split
  · exact hpush.flush
  split
  · exact hpush.flushOpener
  split
  · exact (h.flush.push line line' c).flush
  · exact hpush

theorem readChars (t : Text) : After early (readChars line t s) (readChars line' t s') := by
  fun_induction Scan.readChars line t s generalizing s' with
  | case1 s =>
    rw [Scan.readChars]
    exact h
  | case2 s q hq =>
    have hpush := h.push line line' '\\'
    rw [Scan.readChars]
    simpa [h.quote, hq] using hpush
  | case3 s q hq escaped rest ih =>
    rw [readChars_cons_of_escaped line' (h.quote.trans hq)]
    exact ih ((h.push line line' '\\').push line line' escaped)
  | case4 rest s q hq hbackslash ih =>
    rw [readChars_cons_of_closing line' (h.quote.trans hq) hbackslash]
    have hpush := h.push line line' q
    exact ih ⟨hpush.pending, rfl, hpush.depth, hpush.texts⟩
  | case5 c rest s q hq hbackslash hc ih =>
    rw [readChars_cons_of_quoted line' (h.quote.trans hq) hbackslash hc]
    exact ih (h.push line line' c)
  | case6 c rest s hquote hstart =>
    have hread : Scan.readChars line' (c :: rest) s' = s'.comment line' (c :: rest) := by
      have hstart' : s'.startsComment c rest = true := by
        rw [startsComment, h.pending]
        exact hstart
      rw [Scan.readChars.eq_def]
      simp [h.quote, hquote, hstart']
    rw [hread]
    exact h.comment line line' (c :: rest)
  | case7 c rest s hquote hstart ih =>
    have hstart' : s'.startsComment c rest = false := by
      rw [startsComment, h.pending]
      exact Bool.of_not_eq_true hstart
    rw [readChars_cons_of_plain line' (h.quote.trans hquote) hstart']
    exact ih (h.readPlain line line' c rest)

theorem isContinued_eq : s'.isContinued = s.isContinued := by
  rw [isContinued, isContinued, h.quote, h.depth, h.text_eq]

theorem endLine : After early s.endLine s'.endLine := by
  unfold Scan.endLine
  rw [h.isContinued_eq, h.pending]
  split
  · split
    · exact h
    · exact ⟨rfl, h.quote, h.depth, h.texts⟩
  · exact h.flush

theorem readLine (t : Text) : After early (s.readLine line t) (s'.readLine line' t) :=
  (h.readChars line line' (Text.trim t)).endLine

theorem foldl_readLine {ls ls' : List (Nat × Text)} (hls : ls'.map Prod.snd = ls.map Prod.snd) :
    After early (ls.foldl (fun s l ↦ s.readLine l.1 l.2) s)
      (ls'.foldl (fun s l ↦ s.readLine l.1 l.2) s') := by
  induction ls generalizing ls' s s' with
  | nil =>
    obtain rfl := List.map_eq_nil_iff.mp hls
    exact h
  | cons l ls ih =>
    obtain ⟨l', ls', rfl, hl, hls⟩ := List.map_eq_cons_iff.mp hls
    rw [List.foldl_cons, List.foldl_cons, hl]
    exact ih (h.readLine l.1 l'.1 l.2) hls

theorem texts_finish (hgap : early.head?.any takesBrace = true →
      s.statements.head?.map Statement.text ≠ some ['{']) :
    s'.finish.toOption.map (List.map Statement.text) =
      s.finish.toOption.map fun sts ↦ (early.reverse ++ sts).map Statement.text := by
  have hflush := h.flush
  have htexts := hflush.texts.resolve_right fun ⟨hearly, later, st, hfinished, htext⟩ ↦ by
    refine hgap hearly ?_
    simp [statements, hfinished, htext]
  unfold Scan.finish
  rw [h.quote]
  split
  · rfl
  · simp [Except.toOption, htexts]

end After

theorem after_between (early : List Statement) (start : Nat) :
    After early {} (between early start) :=
  ⟨rfl, rfl, rfl, .inl (by simp [between])⟩

/-! ## Parts of a source -/

/-- The scan of physical lines, which are numbered from one. -/
def ofLines (ls : List Text) : Scan :=
  ((ls.zipIdx 1).map Prod.swap).foldl (fun s l ↦ s.readLine l.1 l.2) {}

theorem map_snd_swap_zipIdx (ls : List Text) (first : Nat) :
    ((ls.zipIdx first).map Prod.swap).map Prod.snd = ls := by
  rw [List.map_map]
  exact List.zipIdx_map_fst first ls

theorem exists_ofLines_append (before ls : List Text) :
    ∃ numbered : List (Nat × Text), numbered.map Prod.snd = ls ∧
      ofLines (before ++ ls) = numbered.foldl (fun s l ↦ s.readLine l.1 l.2) (ofLines before) := by
  refine ⟨(ls.zipIdx (1 + before.length)).map Prod.swap, map_snd_swap_zipIdx ls _, ?_⟩
  rw [ofLines, List.zipIdx_append, List.map_append, List.foldl_append]
  rfl

/-- Lines that are read after other statements. -/
theorem After.texts_ofLines {early : List Statement} {s : Scan} (h : After early {} s)
    {ls : List Text} (hbrace : early.head?.any takesBrace = true →
      (ofLines ls).statements.head?.map Statement.text ≠ some ['{'])
    {numbered : List (Nat × Text)} (hls : numbered.map Prod.snd = ls) :
    (numbered.foldl (fun s l ↦ s.readLine l.1 l.2) s).finish.toOption.map
        (List.map Statement.text) =
      (ofLines ls).finish.toOption.map fun sts ↦ (early.reverse ++ sts).map Statement.text :=
  (h.foldl_readLine (hls.trans (map_snd_swap_zipIdx ls 1).symm)).texts_finish hbrace

theorem sound_ofLines (ls : List Text) : (ofLines ls).Sound := by
  unfold ofLines
  generalize (ls.zipIdx 1).map Prod.swap = numbered
  induction numbered using List.reverseRecOn with
  | nil => exact sound_empty
  | append_singleton numbered l ih =>
    rw [List.foldl_append]
    exact ih.readLine l.1 l.2

/-- A comment can stand between the lines: no statement is being read there, and no opening brace is
parted from the statement that takes it. -/
structure IsGap (before after : List Text) : Prop where
  pending : (ofLines before).pending = []
  brace : (ofLines before).statements.getLast?.any takesBrace = true →
    (ofLines after).statements.head?.map Statement.text ≠ some ['{']

theorem IsGap.exists_between {before after : List Text} (h : IsGap before after) :
    ∃ early start, ofLines before = between early start ∧
      (early.head?.any takesBrace = true →
        (ofLines after).statements.head?.map Statement.text ≠ some ['{']) := by
  obtain ⟨hquote, hdepth⟩ := (sound_ofLines before).quote_eq none (by rw [h.pending]; rfl)
  have hbefore : ofLines before = between (ofLines before).finished (ofLines before).startLine := by
    rw [between, ← h.pending, ← hquote, ← hdepth]
  have hstatements : (ofLines before).statements = (ofLines before).finished.reverse := by
    rw [hbefore]
    rfl
  have hbrace := h.brace
  rw [hstatements, List.getLast?_reverse] at hbrace
  exact ⟨_, _, hbefore, hbrace⟩

end Scan

namespace Statement

/-- The texts of statements do not depend on the numbers of the lines. -/
theorem texts_scanLines_congr {ls ls' : List (Nat × Text)}
    (h : ls'.map Prod.snd = ls.map Prod.snd) :
    (scanLines ls').toOption.map (List.map text) = (scanLines ls).toOption.map (List.map text) := by
  have hafter := (Scan.after_between [] 0).foldl_readLine h
  exact hafter.texts_finish (by simp)

theorem scan_eq_finish (source : Text) : scan source = (Scan.ofLines (Text.lines source)).finish :=
  rfl

/-- A comment between two statements is one statement more. -/
theorem exists_texts_of_comment {before after : List Text} {line source source' : Text}
    (hgap : Scan.IsGap before after) (hcomment : commentMarker.isPrefixOf (Text.trim line) = true)
    (hsource : Text.lines source = before ++ line :: after)
    (hsource' : Text.lines source' = before ++ after) :
    ∃ (front : List Statement) (comment : Statement) (back : Option (List Statement)),
      comment.isComment = true ∧
      (scan source).toOption.map (List.map text) =
        back.map (fun sts ↦ (front ++ comment :: sts).map text) ∧
      (scan source').toOption.map (List.map text) =
        back.map fun sts ↦ (front ++ sts).map text := by
  obtain ⟨early, start, hbefore, hbrace⟩ := hgap.exists_between
  obtain ⟨numbered', hnumbered', hread'⟩ := Scan.exists_ofLines_append before after
  obtain ⟨numbered, hnumbered, hread⟩ := Scan.exists_ofLines_append before (line :: after)
  obtain ⟨⟨k, line'⟩, numbered, rfl, hk, hrest⟩ := List.map_eq_cons_iff.mp hnumbered
  obtain rfl : line = line' := hk.symm
  have htrimmed := Text.isTrimmed_trim line
  have hline : (Scan.between early start).readLine k line =
      Scan.between (⟨Text.trim line, k⟩ :: early) k := by
    rw [← Scan.readLine_comment early start k htrimmed hcomment, Scan.readLine, Scan.readLine,
      htrimmed.trim_eq]
  refine ⟨early.reverse, ⟨Text.trim line, k⟩, (Scan.ofLines after).finish.toOption, hcomment,
    ?_, ?_⟩
  · have hafter := Scan.after_between (⟨Text.trim line, k⟩ :: early) k
    have htexts := hafter.texts_ofLines (by simp [Scan.takesBrace, isComment, hcomment]) hrest
    rw [scan_eq_finish, hsource, hread, List.foldl_cons, hbefore, hline, htexts]
    simp
  · have hafter := Scan.after_between early start
    rw [scan_eq_finish, hsource', hread', hbefore, hafter.texts_ofLines hbrace hnumbered']

end Statement

end StyledMarkup
