import StyledMarkup.Proofs.Statement.Content
import StyledMarkup.Proofs.Statement.Lines

/-!
# Scanning statements again

A statement may have been put together from several physical lines. When it is fed again it stands
on a line of its own, so a second scan sees its characters in other surroundings: no blanks before
it, a space where a line ended, and nothing after it. In a source without apostrophes the second
scan makes the same statements of them. At every moment of the first scan, the finished statements
can be scanned again, and the text of the statement being read, on a line of its own, opens the same
quote and the same parentheses.
-/

namespace StyledMarkup

namespace Text

theorem trimEnd_append_blank (t : Text) {c : Char} (hc : isBlank c = true) :
    trimEnd (t ++ [c]) = trimEnd t := by
  simp [trimEnd, hc]

theorem trim_append_blank (t : Text) {c : Char} (hc : isBlank c = true) :
    trim (t ++ [c]) = trim t := by
  by_cases hblank : ∀ d ∈ t, isBlank d = true
  · have hall : ∀ d ∈ t ++ [c], isBlank d = true := by
      simpa [or_imp, forall_and, hc] using hblank
    rw [trim_eq_nil_iff.mpr (first?_of_blanks hall), trim_eq_nil_iff.mpr (first?_of_blanks hblank)]
  · have hstart : trimStart (t ++ [c]) = trimStart t ++ [c] := by
      simp only [not_forall] at hblank
      obtain ⟨d, hd, hsolid⟩ := hblank
      have hne : t.dropWhile isBlank ≠ [] := by
        rw [ne_eq, List.dropWhile_eq_nil_iff]
        exact fun hall ↦ hsolid (hall d hd)
      rw [trimStart, List.dropWhile_append, List.isEmpty_eq_false_iff.mpr hne]
      rfl
    rw [trim, hstart, trimEnd_append_blank _ hc, trim]

/-- Trimming keeps a front that neither starts nor ends with a blank. -/
theorem isPrefix_trim {front t : Text} (hne : front ≠ [])
    (hstart : front.head?.any isBlank = false) (hend : front.getLast?.any isBlank = false)
    (h : front <+: t) : front <+: trim t := by
  obtain ⟨rest, rfl⟩ := h
  obtain ⟨c, front', rfl⟩ := List.exists_cons_of_ne_nil hne
  have hc : isBlank c = false := hstart
  have hfront : (c :: front').reverse.dropWhile isBlank = (c :: front').reverse := by
    obtain ⟨d, hd⟩ := Option.isSome_iff_exists.mp (List.getLast?_isSome.mpr hne)
    obtain ⟨start, hstart⟩ := List.getLast?_eq_some_iff.mp hd
    rw [hd] at hend
    have hd : isBlank d = false := hend
    simp [hstart, hd]
  have htrimStart : trimStart (c :: front' ++ rest) = c :: front' ++ rest := by
    simp [trimStart, hc]
  rw [trim, htrimStart, trimEnd, List.reverse_append, List.dropWhile_append]
  split
  · refine ⟨[], ?_⟩
    rw [List.append_nil, hfront, List.reverse_reverse]
  · rw [List.reverse_append, List.reverse_reverse]
    exact List.prefix_append _ _

end Text

namespace Scan

/-! ## Texts on a line of their own -/

/-- A scan between two statements. -/
def between (finished : List Statement) (start : Nat) : Scan :=
  { finished, startLine := start }

/-- A scan amid a statement that starts on `line`. -/
def amid (finished : List Statement) (line : Nat) (t : Text) (quote : Option Char) (depth : Nat) :
    Scan :=
  { finished, pending := t.reverse, startLine := line, quote, depth }

/-- At the start of a line the text is read as part of one statement, and leaves this quote and this
many parentheses open, whatever follows it. -/
def Replays (t : Text) (quote : Option Char) (depth : Nat) : Prop :=
  ∀ finished start line rest, Statement.commentMarker.isPrefixOf (t ++ rest) = false →
    readChars line (t ++ rest) (between finished start) =
      readChars line rest (amid finished line t quote depth)

theorem push_amid (finished : List Statement) (line : Nat) (t : Text) (quote : Option Char)
    (depth : Nat) (c : Char) :
    (amid finished line t quote depth).push line c = amid finished line (t ++ [c]) quote depth := by
  cases hblank : Text.allBlank t.reverse <;> simp [push, amid, hblank]

theorem Replays.append {t u : Text} {quote quote' : Option Char} {depth depth' : Nat}
    (h : Replays t quote depth)
    (hu : ∀ finished line rest, readChars line (u ++ rest) (amid finished line t quote depth) =
      readChars line rest (amid finished line (t ++ u) quote' depth')) :
    Replays (t ++ u) quote' depth' := by
  intro finished start line rest hcomment
  rw [List.append_assoc] at hcomment ⊢
  rw [h finished start line (u ++ rest) hcomment, hu]

section Quoted

variable {t : Text} {q : Char} {depth : Nat} (h : Replays t (some q) depth)
include h

theorem Replays.escaped (c : Char) : Replays (t ++ ['\\', c]) (some q) depth := by
  refine h.append fun finished line rest ↦ ?_
  rw [List.cons_append, List.cons_append, readChars_cons_of_escaped line rfl, push_amid, push_amid,
    List.append_assoc]
  rfl

theorem Replays.quoted {c : Char} (hbackslash : c ≠ '\\') (hc : c ≠ q) :
    Replays (t ++ [c]) (some q) depth := by
  refine h.append fun finished line rest ↦ ?_
  rw [List.cons_append, readChars_cons_of_quoted line rfl hbackslash hc, push_amid]
  rfl

theorem Replays.closed (hbackslash : q ≠ '\\') : Replays (t ++ [q]) none depth := by
  refine h.append fun finished line rest ↦ ?_
  rw [List.cons_append, readChars_cons_of_closing line rfl hbackslash, push_amid]
  rfl

/-- A backslash at the end of a line takes the space along that the line is joined with. -/
theorem Replays.backslash_space : Replays (t ++ ['\\'] ++ [' ']) (some q) depth := by
  rw [List.append_assoc]
  exact h.escaped ' '

end Quoted

/-- What a character outside quotes makes of the open quote and parentheses, unless it ends the
statement. Apostrophes are left out: whether they open a quote depends on what follows. -/
inductive Turns (followsWord : Bool) (depth : Nat) (c : Char) : Option Char → Nat → Prop
  | quote (hc : c = '"') (hword : followsWord = false) : Turns followsWord depth c (some '"') depth
  | opening (hc : c = '(') : Turns followsWord depth c none (depth + 1)
  | closing (hc : c = ')') : Turns followsWord depth c none (depth - 1)
  | plain (hquote : c = '"' → followsWord = true) (hparen : c ≠ '(' ∧ c ≠ ')')
    (hend : depth = 0 → c ≠ ';' ∧ c ≠ '{' ∧ c ≠ '}') : Turns followsWord depth c none depth

theorem Turns.readPlain {s : Scan} {c : Char} {quote : Option Char} {depth : Nat}
    (h : Turns s.followsWord s.depth c quote depth) (hquote : s.quote = none) (hc : c ≠ '\'')
    (line : Nat) (rest : Text) :
    s.readPlain line c rest = { s.push line c with quote, depth } := by
  cases h with
  | quote hc hword => simp [Scan.readPlain, opensQuote, hc, hword, push]
  | opening hc => simp [Scan.readPlain, opensQuote, hc, push, hquote]
  | closing hc => simp [Scan.readPlain, opensQuote, hc, push, hquote]
  | plain hword hparen hend =>
    have hopens : s.opensQuote c rest = false := by
      by_cases hdouble : c = '"'
      · simp [opensQuote, hword hdouble]
      · simp [opensQuote, hdouble, hc]
    simp only [Scan.readPlain, hopens, hparen, Bool.false_eq_true, if_false]
    by_cases hdepth : s.depth = 0
    · simp [hdepth, hend hdepth, push, hquote]
    · simp [hdepth, push, hquote]

theorem Turns.double {word : Bool} {depth : Nat} {c : Char} {quote : Option Char} {depth' : Nat}
    (h : Turns word depth c quote depth') (q : Char) (hq : quote = some q) : q = '"' := by
  cases h with
  | quote => exact (Option.some.inj hq).symm
  | opening => cases hq
  | closing => cases hq
  | plain => cases hq

theorem Turns.of_isBlank {word : Bool} {depth : Nat} {c : Char} (hc : Text.isBlank c = true)
    {quote : Option Char} {depth' : Nat} (h : Turns word depth c quote depth') :
    quote = none ∧ depth' = depth := by
  cases h with
  | quote hc' =>
    rw [hc'] at hc
    exact absurd hc (by decide)
  | opening hc' =>
    rw [hc'] at hc
    exact absurd hc (by decide)
  | closing hc' =>
    rw [hc'] at hc
    exact absurd hc (by decide)
  | plain => exact ⟨rfl, rfl⟩

/-- A character either ends the statement or is added to it. -/
theorem turns_or_ends (s : Scan) (c : Char) :
    (∃ quote depth, Turns s.followsWord s.depth c quote depth) ∨
      s.depth = 0 ∧ (c = ';' ∨ c = '{' ∨ c = '}') := by
  by_cases hend : s.depth = 0 ∧ (c = ';' ∨ c = '{' ∨ c = '}')
  · exact Or.inr hend
  · left
    by_cases hquote : c = '"' ∧ s.followsWord = false
    · exact ⟨_, _, .quote hquote.1 hquote.2⟩
    · by_cases hopening : c = '('
      · exact ⟨_, _, .opening hopening⟩
      · by_cases hclosing : c = ')'
        · exact ⟨_, _, .closing hclosing⟩
        · refine ⟨_, _, .plain ?_ ⟨hopening, hclosing⟩ ?_⟩
          · intro hdouble
            exact Bool.of_not_eq_false fun hword ↦ hquote ⟨hdouble, hword⟩
          · intro hdepth
            have hnone : ¬(c = ';' ∨ c = '{' ∨ c = '}') := fun hor ↦ hend ⟨hdepth, hor⟩
            exact ⟨fun h ↦ hnone (Or.inl h), fun h ↦ hnone (Or.inr (Or.inl h)),
              fun h ↦ hnone (Or.inr (Or.inr h))⟩

section Turns

variable {t : Text} {c : Char} {depth : Nat} {quote' : Option Char} {depth' : Nat}
  (hc : c ≠ '\'')
include hc

/-- The first character of a statement. -/
theorem replays_singleton (h : Turns false 0 c quote' depth') :
    Replays [c] quote' depth' := by
  intro finished start line rest hcomment
  have hstart : (between finished start).startsComment c rest = false := by
    rw [startsComment, ← List.singleton_append, hcomment, Bool.and_false]
  rw [List.singleton_append, readChars_cons_of_plain line rfl hstart,
    Turns.readPlain (s := between finished start) h rfl hc]
  simp [push, between, amid, Text.allBlank]

/-- One more character outside quotes. -/
theorem Replays.turn (h : Replays t none depth) (ht : Text.first? t ≠ none)
    (hturn : Turns (t.getLast?.any Text.isAlphanumeric) depth c quote' depth') :
    Replays (t ++ [c]) quote' depth' := by
  refine h.append fun finished line rest ↦ ?_
  have hpending : Text.allBlank (amid finished line t none depth).pending = false := by
    rw [← Bool.not_eq_true, amid, Text.allBlank_reverse, ← Text.first?_eq_none_iff]
    exact ht
  have hword : (amid finished line t none depth).followsWord =
      t.getLast?.any Text.isAlphanumeric := by
    rw [followsWord_eq, amid, List.head?_reverse]
  rw [List.singleton_append, readChars_cons_of_plain line rfl (startsComment_of_pending hpending),
    Turns.readPlain (hword ▸ hturn) rfl hc, push_amid]
  rfl

end Turns

theorem turns_space (followsWord : Bool) (depth : Nat) : Turns followsWord depth ' ' none depth :=
  .plain (fun heq ↦ absurd heq (by decide)) (by decide) fun _ ↦ by decide

/-- A statement can be joined with the next line by a space. -/
theorem Replays.space {t : Text} {quote : Option Char} {depth : Nat} (h : Replays t quote depth)
    (ht : Text.first? t ≠ none) (hquote : quote ≠ some ' ') :
    Replays (t ++ [' ']) quote depth := by
  cases quote with
  | none => exact h.turn (by decide) ht (turns_space _ _)
  | some q => exact h.quoted (by decide) fun heq ↦ hquote (heq ▸ rfl)

/-! ## Statements that are scanned again -/

/-- Scanning the statements again, each on a line of its own, gives them back. The latest comes
first. -/
def Refed (finished : List Statement) : Prop :=
  ∃ start, finished.reverse.foldl (fun s st ↦ s.readLine st.line st.text) ({} : Scan) =
    between finished start

theorem refed_nil : Refed [] :=
  ⟨0, rfl⟩

theorem Refed.cons {finished : List Statement} (h : Refed finished) {st : Statement}
    (hst : ∀ start, ∃ start', (between finished start).readLine st.line st.text =
      between (st :: finished) start') : Refed (st :: finished) := by
  obtain ⟨start, hstart⟩ := h
  obtain ⟨start', hstart'⟩ := hst start
  exact ⟨start', by rw [List.reverse_cons, List.foldl_append, hstart, List.foldl_cons,
    List.foldl_nil, hstart']⟩

theorem flush_amid {t : Text} (ht : t.IsTrimmed) (hne : t ≠ []) (hsemicolon : t ≠ [';'])
    (finished : List Statement) (line depth : Nat) :
    (amid finished line t none depth).flush =
      { between (⟨t, line⟩ :: finished) line with depth } := by
  rw [flush_of_isTrimmed (t := t) (List.reverse_reverse t) ht hne hsemicolon]
  rfl

/-- The end of a line ends the statement or leaves it to be ended. -/
theorem flush_endLine (s : Scan) : s.endLine.flush = s.flush := by
  unfold endLine
  split
  · split
    · rfl
    · have htext : ({ s with pending := ' ' :: s.pending } : Scan).text = s.text := by
        rw [text, text, List.reverse_cons, Text.trim_append_blank _ (by decide)]
      simp only [flush, htext]
  · unfold flush
    split <;> rfl

theorem Replays.ne_semicolon {t : Text} {quote : Option Char} {depth : Nat}
    (h : Replays t quote depth) : t ≠ [';'] := by
  rintro rfl
  have hread : (readChars 0 [';'] (between [] 0)).pending = [';'] :=
    congrArg Scan.pending (h [] 0 0 [] rfl)
  revert hread
  decide

theorem endLine_keeps (s : Scan) : s.endLine.quote = s.quote ∧ s.endLine.depth = s.depth := by
  unfold endLine
  split
  · split <;> exact ⟨rfl, rfl⟩
  · exact (flush_clean s).2

section Line

variable {t : Text} (finished : List Statement) (start line : Nat)

theorem readLine_of_replays {depth : Nat} (h : Replays t none depth) (ht : t.IsTrimmed)
    (hcomment : Statement.commentMarker.isPrefixOf t = false) :
    (between finished start).readLine line t = (amid finished line t none depth).endLine := by
  have hread := h finished start line [] (by rwa [List.append_nil])
  rw [List.append_nil, readChars] at hread
  rw [readLine, ht.trim_eq, hread]

/-- Reading a statement that ends at its last character. -/
theorem readLine_of_ends {c : Char} (h : Replays t none 0) (hfirst : Text.first? t ≠ none)
    (ht : (t ++ [c]).IsTrimmed)
    (hcomment : Statement.commentMarker.isPrefixOf (t ++ [c]) = false)
    (hne : t ++ [c] ≠ [';'])
    (hends : (amid finished line t none 0).readPlain line c [] =
      (amid finished line (t ++ [c]) none 0).flush) :
    (between finished start).readLine line (t ++ [c]) =
      between (⟨t ++ [c], line⟩ :: finished) line := by
  have hpending : Text.allBlank (amid finished line t none 0).pending = false := by
    rw [← Bool.not_eq_true, amid, Text.allBlank_reverse, ← Text.first?_eq_none_iff]
    exact hfirst
  rw [readLine, ht.trim_eq, h finished start line [c] hcomment,
    readChars_cons_of_plain line rfl (startsComment_of_pending hpending), readChars, hends,
    flush_amid ht (by simp) hne]
  rfl

/-- A closing brace first ends the statement that the line before it may have left. -/
theorem readLine_closer {s : Scan} (hquote : s.quote = none) (hdepth : s.depth = 0)
    (hflush : s.flush = between finished start) :
    s.readLine line ['}'] = between (⟨['}'], line⟩ :: finished) line := by
  have htrim : Text.trim ['}'] = ['}'] := by decide
  have hstart : s.startsComment '}' [] = false := by
    rw [startsComment]
    exact Bool.and_false _
  have hread : s.readPlain line '}' [] = (s.flush.push line '}').flush := by
    simp [readPlain, opensQuote, hdepth]
  rw [readLine, htrim, readChars_cons_of_plain line hquote hstart, readChars, hread, hflush]
  rfl

theorem readLine_comment (ht : t.IsTrimmed)
    (hcomment : Statement.commentMarker.isPrefixOf t = true) :
    (between finished start).readLine line t = between (⟨t, line⟩ :: finished) line := by
  cases t with
  | nil => cases hcomment
  | cons c rest =>
    have hstart : (between finished start).startsComment c rest = true := hcomment
    have hread : readChars line (c :: rest) (between finished start) =
        (between finished start).comment line (c :: rest) := by
      rw [readChars.eq_def]
      exact if_pos hstart
    rw [readLine, ht.trim_eq, hread, comment, ht.trim_eq]
    rfl

end Line

section Refed

variable {finished : List Statement} (h : Refed finished) {t : Text} (line : Nat)
include h

/-- A statement that the end of its line ends. -/
theorem Refed.whole (hreplays : Replays t none 0) (ht : t.IsTrimmed) (hne : t ≠ [])
    (hcomment : Statement.commentMarker.isPrefixOf t = false)
    (hends : (t.endsWith ',' || isDangling t) = false) : Refed (⟨t, line⟩ :: finished) := by
  refine h.cons fun start ↦ ⟨line, ?_⟩
  have htext : (amid finished line t none 0).text = t := by
    rw [text, amid, List.reverse_reverse, ht.trim_eq]
  have hcontinued : (amid finished line t none 0).isContinued = false := by
    rw [isContinued, htext, Bool.or_assoc, hends]
    rfl
  rw [readLine_of_replays finished start line hreplays ht hcomment, endLine, hcontinued,
    if_neg Bool.false_ne_true, flush_amid ht hne hreplays.ne_semicolon]
  rfl

theorem Refed.declaration (hreplays : Replays t none 0) (hfirst : Text.first? t ≠ none)
    (ht : (t ++ [';']).IsTrimmed)
    (hcomment : Statement.commentMarker.isPrefixOf (t ++ [';']) = false) :
    Refed (⟨t ++ [';'], line⟩ :: finished) := by
  refine h.cons fun start ↦ ⟨line, ?_⟩
  refine readLine_of_ends finished start line hreplays hfirst ht hcomment ?_ ?_
  · intro heq
    rw [List.append_left_eq_self.mp heq] at hfirst
    exact hfirst rfl
  · rw [← push_amid]
    simp [readPlain, opensQuote, amid]

theorem Refed.opener (hreplays : Replays t none 0) (hfirst : Text.first? t ≠ none)
    (ht : (t ++ ['{']).IsTrimmed)
    (hcomment : Statement.commentMarker.isPrefixOf (t ++ ['{']) = false) :
    Refed (⟨t ++ ['{'], line⟩ :: finished) := by
  refine h.cons fun start ↦ ⟨line, ?_⟩
  refine readLine_of_ends finished start line hreplays hfirst ht hcomment ?_ ?_
  · intro heq
    simpa using congrArg List.getLast? heq
  · have htext : (amid finished line (t ++ ['{']) none 0).text ≠ ['{'] := by
      rw [text, amid, List.reverse_reverse, ht.trim_eq]
      intro heq
      rw [List.append_left_eq_self.mp heq] at hfirst
      exact hfirst rfl
    rw [← flushOpener_eq_flush htext, ← push_amid]
    simp [readPlain, opensQuote, amid]

/-- An opening brace that stands alone. -/
theorem Refed.brace (hhead : finished.head?.any takesBrace = false) :
    Refed (⟨['{'], line⟩ :: finished) := by
  refine h.cons fun start ↦ ⟨line, ?_⟩
  have hread : (between finished start).readPlain line '{' [] =
      (amid finished line ['{'] none 0).flushOpener := rfl
  have hflush : (amid finished line ['{'] none 0).flushOpener =
      (amid finished line ['{'] none 0).flush := by
    unfold flushOpener
    cases finished with
    | nil => rfl
    | cons previous earlier =>
      have hnot : ¬takesBrace previous = true := by simpa using hhead
      exact if_neg fun hand ↦ hnot hand.2
  have htrim : Text.trim ['{'] = ['{'] := by decide
  have hstart : (between finished start).startsComment '{' [] = false := rfl
  rw [readLine, htrim, readChars_cons_of_plain line rfl hstart, readChars, hread, hflush]
  rfl

theorem Refed.closer : Refed (⟨['}'], line⟩ :: finished) :=
  h.cons fun start ↦ ⟨line, readLine_closer finished start line rfl rfl rfl⟩

/-- A statement that a closing brace ends, and the brace. -/
theorem Refed.closed (hreplays : Replays t none 0) (ht : t.IsTrimmed) (hne : t ≠ [])
    (hcomment : Statement.commentMarker.isPrefixOf t = false) (line' : Nat) :
    Refed (⟨['}'], line'⟩ :: ⟨t, line⟩ :: finished) := by
  obtain ⟨start, hstart⟩ := h
  obtain ⟨hquote, hdepth⟩ := endLine_keeps (amid finished line t none 0)
  have hflush : (amid finished line t none 0).endLine.flush =
      between (⟨t, line⟩ :: finished) line := by
    rw [flush_endLine, flush_amid ht hne hreplays.ne_semicolon]
    rfl
  refine ⟨line', ?_⟩
  rw [List.reverse_cons, List.reverse_cons, List.append_assoc, List.foldl_append, hstart]
  simp only [List.singleton_append, List.foldl_cons, List.foldl_nil]
  rw [readLine_of_replays finished start line hreplays ht hcomment,
    readLine_closer _ _ line' hquote hdepth hflush]

theorem Refed.comment (ht : t.IsTrimmed)
    (hcomment : Statement.commentMarker.isPrefixOf t = true) : Refed (⟨t, line⟩ :: finished) :=
  h.cons fun start ↦ ⟨line, readLine_comment finished start line ht hcomment⟩

end Refed

/-! ## The statement being read -/

/-- The characters of the statement being read, without the blanks before it. -/
def begun (s : Scan) : Text :=
  Text.trimStart s.pending.reverse

section Begun

variable (s : Scan)

theorem begun_eq_nil_iff : s.begun = [] ↔ Text.allBlank s.pending = true := by
  rw [begun, Text.trimStart, List.dropWhile_eq_nil_iff]
  simp [Text.allBlank]

theorem text_eq_trimEnd : s.text = Text.trimEnd s.begun := rfl

theorem text_eq_nil (hnil : s.begun = []) : s.text = [] := by
  rw [text_eq_trimEnd, hnil]
  rfl

theorem begun_push (line : Nat) {c : Char} (hc : s.begun ≠ [] ∨ Text.isBlank c = false) :
    (s.push line c).begun = s.begun ++ [c] := by
  have hpending : (s.push line c).pending.reverse = s.pending.reverse ++ [c] := by
    simp [push]
  rw [begun, hpending]
  by_cases hblank : Text.isBlank c = true
  · have hne : s.begun ≠ [] := hc.resolve_right (by simp [hblank])
    have hempty : (s.pending.reverse.dropWhile Text.isBlank).isEmpty = false :=
      List.isEmpty_eq_false_iff.mpr hne
    rw [Text.trimStart, List.dropWhile_append, hempty]
    rfl
  · exact Text.trimStart_append_singleton _ (Bool.of_not_eq_true hblank)

theorem begun_push_blank (line : Nat) {c : Char} (hnil : s.begun = [])
    (hc : Text.isBlank c = true) : (s.push line c).begun = [] := by
  rw [begun_eq_nil_iff] at hnil ⊢
  simpa [push, Text.allBlank, hc] using hnil

theorem text_push_blank (line : Nat) {c : Char} (hc : Text.isBlank c = true) :
    (s.push line c).text = s.text := by
  rw [text, text, push, List.reverse_cons, Text.trim_append_blank _ hc]

theorem text_push (line : Nat) {c : Char} (hc : Text.isBlank c = false) :
    (s.push line c).text = s.begun ++ [c] := by
  rw [text_eq_trimEnd, begun_push s line (Or.inr hc), Text.trimEnd_append_singleton _ hc]

theorem followsWord_eq_getLast? : s.followsWord = s.begun.getLast?.any Text.isAlphanumeric := by
  obtain ⟨blanks, hblanks, hall⟩ := Text.exists_trimStart_eq s.pending.reverse
  have hpending : s.pending = s.begun.reverse ++ blanks.reverse := by
    simpa [begun] using congrArg List.reverse hblanks
  rw [followsWord_eq, hpending, List.head?_append, List.head?_reverse, List.head?_reverse]
  cases hlast : s.begun.getLast? with
  | some c => rfl
  | none =>
    rw [Option.none_or]
    cases hblank : blanks.getLast? with
    | none => rfl
    | some c =>
      exact Text.isAlphanumeric_of_isBlank (hall c (List.mem_of_getLast? hblank))

variable {s} (hne : s.begun ≠ [])
include hne

theorem first?_begun : Text.first? s.begun ≠ none := by
  obtain ⟨c, rest, hbegun⟩ := List.exists_cons_of_ne_nil hne
  have hc : Text.isBlank c = false :=
    Text.head?_trimStart_not_blank s.pending.reverse (by rw [← begun, hbegun, List.head?_cons])
  rw [hbegun, Text.first?_cons hc]
  exact Option.some_ne_none c

theorem isTrimmed_begun_append {c : Char} (hc : Text.isBlank c = false) :
    (s.begun ++ [c]).IsTrimmed := by
  obtain ⟨d, rest, hbegun⟩ := List.exists_cons_of_ne_nil hne
  have hd : s.begun.head? = some d := by rw [hbegun, List.head?_cons]
  exact Text.isTrimmed_append_singleton ⟨d, hd, Text.head?_trimStart_not_blank _ hd⟩ hc

theorem text_ne_nil : s.text ≠ [] := by
  have hfirst := first?_begun hne
  rw [text_eq_trimEnd]
  intro hnil
  obtain ⟨blanks, hblanks, hall⟩ := Text.exists_trimEnd_eq s.begun
  rw [hnil, List.nil_append] at hblanks
  rw [hblanks, Text.first?_of_blanks hall] at hfirst
  exact hfirst rfl

end Begun

/-! ## The first scan -/

/-- What holds of a scan when `rest` is left of the line: the finished statements can be scanned
again, also without the last one if that may still take a brace, and so can the statement being
read, if it ended here. -/
structure Ready (s : Scan) (rest : Text) : Prop where
  refed : Refed s.finished
  takes : ∀ previous earlier, s.finished = previous :: earlier → takesBrace previous = true →
    Refed earlier ∧ Replays previous.text none 0
  double : ∀ q, s.quote = some q → q = '"'
  clean : s.begun = [] → s.quote = none ∧ s.depth = 0
  ended : s.begun ≠ [] → s.quote = none → Replays s.text none s.depth
  not_comment : s.begun ≠ [] → Statement.commentMarker.isPrefixOf (s.begun ++ rest) = false

/-- The scan is ready, and the statement being read can go on with any character. -/
structure MidLine (s : Scan) (rest : Text) : Prop extends Ready s rest where
  replays : s.begun ≠ [] → Replays s.begun s.quote s.depth

/-- The scan is ready, and the statement being read can go on with a space. -/
structure LineEnd (s : Scan) : Prop extends Ready s [] where
  replays : s.begun ≠ [] → Replays (s.begun ++ [' ']) s.quote s.depth

theorem isPrefixOf_eq_false {m t u : Text} (h : m.isPrefixOf u = false) (ht : t <+: u) :
    m.isPrefixOf t = false := by
  apply Bool.eq_false_iff.mpr
  intro hm
  have hu := List.isPrefixOf_iff_prefix.mpr ((List.isPrefixOf_iff_prefix.mp hm).trans ht)
  rw [h] at hu
  cases hu

theorem Ready.text_not_comment {s : Scan} {rest : Text} (h : Ready s rest) (hne : s.begun ≠ []) :
    Statement.commentMarker.isPrefixOf s.text = false := by
  refine isPrefixOf_eq_false (h.not_comment hne) ?_
  obtain ⟨blanks, hblanks, -⟩ := Text.exists_trimEnd_eq s.begun
  rw [text_eq_trimEnd]
  exact ⟨blanks ++ rest, by rw [← List.append_assoc, ← hblanks]⟩

/-- No statement has begun. -/
theorem midLine_of_begun {s : Scan} (rest : Text) (hnil : s.begun = []) (hquote : s.quote = none)
    (hdepth : s.depth = 0) (hrefed : Refed s.finished)
    (htakes : ∀ previous earlier, s.finished = previous :: earlier → takesBrace previous = true →
      Refed earlier ∧ Replays previous.text none 0) : MidLine s rest :=
  ⟨⟨hrefed, htakes, by simp [hquote], fun _ ↦ ⟨hquote, hdepth⟩, fun hne ↦ absurd hnil hne,
    fun hne ↦ absurd hnil hne⟩, fun hne ↦ absurd hnil hne⟩

theorem flush_of_text {s : Scan} (hne : s.text ≠ []) (hsemicolon : s.text ≠ [';']) :
    s.flush = { s with finished := ⟨s.text, s.startLine⟩ :: s.finished, pending := [] } :=
  if_neg (not_or.mpr ⟨hne, hsemicolon⟩)

/-- A statement has just ended. -/
theorem midLine_flush {s : Scan} (rest : Text) (hquote : s.quote = none) (hdepth : s.depth = 0)
    (hne : s.text ≠ []) (hsemicolon : s.text ≠ [';'])
    (hrefed : Refed (⟨s.text, s.startLine⟩ :: s.finished))
    (htakes : takesBrace ⟨s.text, s.startLine⟩ = true →
      Refed s.finished ∧ Replays s.text none 0) : MidLine s.flush rest := by
  rw [flush_of_text hne hsemicolon]
  refine midLine_of_begun rest rfl hquote hdepth hrefed ?_
  intro previous earlier heq hbrace
  obtain ⟨rfl, rfl⟩ := List.cons.inj heq
  exact htakes hbrace

theorem takesBrace_of_endsWith {st : Statement} {c : Char} (hc : c = ';' ∨ c = '{' ∨ c = '}')
    (h : st.text.endsWith c = true) : takesBrace st = false := by
  rcases hc with rfl | rfl | rfl <;> simp [takesBrace, h]

/-! ## Characters -/

section Characters

variable {s : Scan} {c : Char} {rest : Text} (line : Nat)

/-- A statement that goes on with more characters. -/
theorem MidLine.extend {s' : Scan} {u : Text} (h : MidLine s (u ++ rest)) (hne : s.begun ≠ [])
    (hfinished : s'.finished = s.finished) (hbegun : s'.begun = s.begun ++ u)
    (hdouble : ∀ q, s'.quote = some q → q = '"')
    (hended : s'.quote = none → Replays s'.text none s'.depth)
    (hreplays : Replays (s.begun ++ u) s'.quote s'.depth) : MidLine s' rest := by
  refine ⟨⟨hfinished ▸ h.refed, hfinished ▸ h.takes, hdouble, fun hnil ↦ ?_, fun _ ↦ hended,
    fun _ ↦ ?_⟩, fun _ ↦ ?_⟩
  · simp [hbegun, hne] at hnil
  · rw [hbegun, List.append_assoc]
    exact h.not_comment hne
  · rw [hbegun]
    exact hreplays

/-- The first character of a statement. -/
theorem MidLine.first (h : MidLine s (c :: rest)) (hnil : s.begun = [])
    (hstart : s.startsComment c rest = false) (hc : c ≠ '\'') (hblank : Text.isBlank c = false)
    {quote : Option Char} {depth : Nat} (hturn : Turns false 0 c quote depth) :
    MidLine { s.push line c with quote, depth } rest := by
  have hbegun : ({ s.push line c with quote, depth } : Scan).begun = [c] :=
    (begun_push s line (Or.inr hblank)).trans (by rw [hnil, List.nil_append])
  have htext : ({ s.push line c with quote, depth } : Scan).text = [c] :=
    (text_push s line hblank).trans (by rw [hnil, List.nil_append])
  have hreplays : Replays [c] quote depth := replays_singleton hc hturn
  have hcomment : Statement.commentMarker.isPrefixOf (c :: rest) = false := by
    rw [startsComment, (begun_eq_nil_iff s).mp hnil, Bool.true_and] at hstart
    exact hstart
  refine ⟨⟨h.refed, h.takes, hturn.double, fun hnone ↦ ?_, fun _ hnone ↦ ?_, fun _ ↦ ?_⟩,
    fun _ ↦ ?_⟩
  · simp [hbegun] at hnone
  · rw [htext]
    exact hnone ▸ hreplays
  · rw [hbegun]
    exact hcomment
  · rw [hbegun]
    exact hreplays

/-- A character that is added to the statement outside quotes. -/
theorem MidLine.turn (h : MidLine s (c :: rest)) (hquote : s.quote = none)
    (hstart : s.startsComment c rest = false) (hc : c ≠ '\'') {quote : Option Char} {depth : Nat}
    (hturn : Turns s.followsWord s.depth c quote depth) :
    MidLine { s.push line c with quote, depth } rest := by
  rw [followsWord_eq_getLast?] at hturn
  by_cases hnil : s.begun = []
  · obtain ⟨-, hdepth⟩ := h.clean hnil
    rw [hnil, hdepth] at hturn
    by_cases hblank : Text.isBlank c = true
    · obtain ⟨rfl, rfl⟩ := hturn.of_isBlank hblank
      exact midLine_of_begun rest (begun_push_blank s line hnil hblank) rfl rfl h.refed h.takes
    · exact h.first line hnil hstart hc (Bool.of_not_eq_true hblank) hturn
  · have hbefore := h.replays hnil
    rw [hquote] at hbefore
    have hreplays := hbefore.turn hc (first?_begun hnil) hturn
    refine h.extend (u := [c]) hnil rfl (begun_push s line (Or.inl hnil)) hturn.double ?_ hreplays
    intro hnone
    -- A blank is trimmed off if the statement ends here, so the text is the one before it.
    by_cases hblank : Text.isBlank c = true
    · obtain ⟨-, rfl⟩ := hturn.of_isBlank hblank
      have htext : ({ s.push line c with quote, depth := s.depth } : Scan).text = s.text :=
        text_push_blank s line hblank
      rw [htext]
      exact h.ended hnil hquote
    · have htext : ({ s.push line c with quote, depth } : Scan).text = s.begun ++ [c] :=
        text_push s line (Bool.of_not_eq_true hblank)
      rw [htext]
      exact hnone ▸ hreplays

theorem MidLine.semicolon (h : MidLine s (';' :: rest)) (hquote : s.quote = none)
    (hdepth : s.depth = 0) : MidLine (s.push line ';').flush rest := by
  have htext := text_push s line (c := ';') (by decide)
  by_cases hnil : s.begun = []
  · rw [hnil, List.nil_append] at htext
    rw [flush, if_pos (Or.inr htext)]
    exact midLine_of_begun rest rfl hquote hdepth h.refed h.takes
  · have hreplays := h.replays hnil
    rw [hquote, hdepth] at hreplays
    have hcomment : Statement.commentMarker.isPrefixOf (s.begun ++ [';']) = false :=
      isPrefixOf_eq_false (h.not_comment hnil) ⟨rest, by simp⟩
    refine midLine_flush rest hquote hdepth (by simp [htext]) (by simp [htext, hnil]) ?_ ?_
    · rw [htext]
      exact h.refed.declaration _ hreplays (first?_begun hnil)
        (isTrimmed_begun_append hnil (by decide)) hcomment
    · intro hbrace
      rw [takesBrace_of_endsWith (c := ';') (by simp) (by simp [htext, Text.endsWith])] at hbrace
      cases hbrace

/-- A space keeps a text from becoming a comment. -/
theorem not_comment_append_space {t : Text} (hne : t ≠ [])
    (h : Statement.commentMarker.isPrefixOf t = false) (u : Text) :
    Statement.commentMarker.isPrefixOf (t ++ ' ' :: u) = false := by
  match t with
  | [] => exact absurd rfl hne
  | [c] => simp [Statement.commentMarker, List.isPrefixOf]
  | c :: d :: t => simpa [Statement.commentMarker, List.isPrefixOf] using h

theorem Refed.join {previous : Statement} {earlier : List Statement} (h : Refed earlier)
    (hreplays : Replays previous.text none 0) (hshaped : previous.IsShaped)
    (hbrace : takesBrace previous = true) :
    Refed (⟨previous.text ++ [' ', '{'], previous.line⟩ :: earlier) := by
  have hfirst : Text.first? previous.text ≠ none := by
    obtain ⟨c, t, htext⟩ := List.exists_cons_of_ne_nil hshaped.ne_nil
    rw [htext, Text.first?_cons (hshaped.trimmed.1 c (by rw [htext, List.head?_cons]))]
    exact Option.some_ne_none c
  have hcomment : Statement.commentMarker.isPrefixOf previous.text = false := by
    simp only [takesBrace, Statement.isComment, Bool.and_eq_true, Bool.not_eq_true'] at hbrace
    exact hbrace.1.1.1
  have hsplit : previous.text ++ [' ', '{'] = previous.text ++ [' '] ++ ['{'] := by simp
  have htrimmed := (isShaped_join hshaped hbrace).trimmed
  dsimp only at htrimmed
  rw [hsplit] at htrimmed ⊢
  refine h.opener _ (hreplays.space hfirst (by simp)) ?_ htrimmed ?_
  · rw [Text.first?_append, ne_eq, Option.or_eq_none_iff]
    exact fun hnone ↦ hfirst hnone.1
  · rw [List.append_assoc]
    exact not_comment_append_space hshaped.ne_nil hcomment _

theorem MidLine.opener (h : MidLine s ('{' :: rest)) (hquote : s.quote = none)
    (hdepth : s.depth = 0) (hshaped : ∀ st ∈ s.finished, st.IsShaped) :
    MidLine (s.push line '{').flushOpener rest := by
  have htext := text_push s line (c := '{') (by decide)
  have hflush : Refed (⟨(s.push line '{').text, (s.push line '{').startLine⟩ :: s.finished) →
      MidLine (s.push line '{').flush rest := by
    intro hrefed
    refine midLine_flush rest hquote hdepth (by simp [htext]) ?_ hrefed ?_
    · intro heq
      rw [htext] at heq
      simpa using congrArg List.getLast? heq
    · intro hbrace
      rw [takesBrace_of_endsWith (c := '{') (by simp) (by simp [htext, Text.endsWith])] at hbrace
      cases hbrace
  by_cases hnil : s.begun = []
  · rw [hnil, List.nil_append] at htext
    unfold flushOpener
    split
    · next hfinished =>
      have hfinished : s.finished = [] := hfinished
      apply hflush
      rw [htext, hfinished]
      exact refed_nil.brace _ rfl
    · next previous earlier hfinished =>
      have hfinished : s.finished = previous :: earlier := hfinished
      split
      · next hjoin =>
        obtain ⟨hearlier, hreplays⟩ := h.takes previous earlier hfinished hjoin.2
        have hrefed := hearlier.join hreplays (hshaped previous (by simp [hfinished])) hjoin.2
        refine midLine_of_begun rest rfl hquote hdepth hrefed ?_
        intro previous' earlier' heq hbrace
        obtain ⟨rfl, rfl⟩ := List.cons.inj heq
        rw [takesBrace_of_endsWith (c := '{') (by simp) (by simp [Text.endsWith])] at hbrace
        cases hbrace
      · next hjoin =>
        apply hflush
        rw [htext]
        refine h.refed.brace _ ?_
        rw [hfinished, List.head?_cons, Option.any_some]
        exact Bool.of_not_eq_true fun hbrace ↦ hjoin ⟨htext, hbrace⟩
  · have hreplays := h.replays hnil
    rw [hquote, hdepth] at hreplays
    have hcomment : Statement.commentMarker.isPrefixOf (s.begun ++ ['{']) = false :=
      isPrefixOf_eq_false (h.not_comment hnil) ⟨rest, by simp⟩
    rw [flushOpener_eq_flush (by simp [htext, hnil])]
    apply hflush
    rw [htext]
    exact h.refed.opener _ hreplays (first?_begun hnil)
      (isTrimmed_begun_append hnil (by decide)) hcomment

theorem MidLine.closer (h : MidLine s ('}' :: rest)) (hquote : s.quote = none)
    (hdepth : s.depth = 0) : MidLine (s.flush.push line '}').flush rest := by
  obtain ⟨hpending, hquote', hdepth'⟩ := flush_clean s
  have htext : (s.flush.push line '}').text = ['}'] := by
    rw [text, push, hpending]
    rfl
  have hline : (s.flush.push line '}').startLine = line := by
    rw [push, hpending]
    rfl
  refine midLine_flush rest (hquote'.trans hquote) (hdepth'.trans hdepth) (by simp [htext])
    (by simp [htext]) ?_ ?_
  · rw [htext, hline]
    by_cases hnil : s.begun = []
    · have hnone := s.text_eq_nil hnil
      have hfinished : (s.flush.push line '}').finished = s.finished := by
        rw [push, flush, if_pos (Or.inl hnone)]
      rw [hfinished]
      exact h.refed.closer line
    · have hreplays := h.ended hnil hquote
      rw [hdepth] at hreplays
      have hfinished : (s.flush.push line '}').finished =
          ⟨s.text, s.startLine⟩ :: s.finished := by
        rw [push, flush_of_text (text_ne_nil hnil) hreplays.ne_semicolon]
      rw [hfinished]
      exact h.refed.closed _ hreplays (Text.isTrimmed_trim _) (text_ne_nil hnil)
        (h.text_not_comment hnil) line
  · intro hbrace
    rw [takesBrace_of_endsWith (c := '}') (by simp) (by simp [htext, Text.endsWith])] at hbrace
    cases hbrace

theorem MidLine.readPlain (h : MidLine s (c :: rest)) (hsound : s.Sound) (hquote : s.quote = none)
    (hstart : s.startsComment c rest = false) (hc : c ≠ '\'') :
    MidLine (s.readPlain line c rest) rest := by
  rcases turns_or_ends s c with ⟨quote, depth, hturn⟩ | ⟨hdepth, rfl | rfl | rfl⟩
  · rw [hturn.readPlain hquote hc]
    exact h.turn line hquote hstart hc hturn
  · have hread : s.readPlain line ';' rest = (s.push line ';').flush := by
      simp [Scan.readPlain, opensQuote, hdepth]
    rw [hread]
    exact h.semicolon line hquote hdepth
  · have hread : s.readPlain line '{' rest = (s.push line '{').flushOpener := by
      simp [Scan.readPlain, opensQuote, hdepth]
    rw [hread]
    exact h.opener line hquote hdepth hsound.finished
  · have hread : s.readPlain line '}' rest = (s.flush.push line '}').flush := by
      simp [Scan.readPlain, opensQuote, hdepth]
    rw [hread]
    exact h.closer line hquote hdepth

section Quoted

variable {q : Char} (hq : s.quote = some q)
include hq

theorem Ready.begun_ne_nil {u : Text} (h : Ready s u) : s.begun ≠ [] := by
  intro hnil
  have hnone := (h.clean hnil).1
  simp [hq] at hnone

theorem MidLine.quoted (h : MidLine s (c :: rest)) (hbackslash : c ≠ '\\') (hc : c ≠ q) :
    MidLine (s.push line c) rest := by
  have hne := h.begun_ne_nil hq
  have hreplays := h.replays hne
  rw [hq] at hreplays
  refine h.extend (u := [c]) hne rfl (begun_push s line (Or.inl hne)) h.double ?_ ?_
  · intro hnone
    simp [push, hq] at hnone
  · have hnext := hreplays.quoted hbackslash hc
    rwa [← hq] at hnext

theorem MidLine.closing (h : MidLine s (q :: rest)) (hbackslash : q ≠ '\\') :
    MidLine { s.push line q with quote := none } rest := by
  have hne := h.begun_ne_nil hq
  have hreplays := h.replays hne
  rw [hq] at hreplays
  have hnext := hreplays.closed hbackslash
  have hblank : Text.isBlank q = false := by
    rw [h.double q hq]
    decide
  refine h.extend (u := [q]) hne rfl (begun_push s line (Or.inl hne)) (by simp) (fun _ ↦ ?_) hnext
  have htext : ({ s.push line q with quote := none } : Scan).text = s.begun ++ [q] :=
    text_push s line hblank
  rw [htext]
  exact hnext

theorem MidLine.escaped (h : MidLine s ('\\' :: c :: rest)) :
    MidLine ((s.push line '\\').push line c) rest := by
  have hne := h.begun_ne_nil hq
  have hreplays := h.replays hne
  rw [hq] at hreplays
  have hbackslash : (s.push line '\\').begun = s.begun ++ ['\\'] :=
    begun_push s line (Or.inl hne)
  have hbegun : ((s.push line '\\').push line c).begun = s.begun ++ ['\\', c] := by
    rw [begun_push _ line (Or.inl (by simp [hbackslash])), hbackslash, List.append_assoc]
    rfl
  refine h.extend (u := ['\\', c]) hne rfl hbegun h.double ?_ ?_
  · intro hnone
    simp [push, hq] at hnone
  · have hnext := hreplays.escaped c
    rwa [← hq] at hnext

/-- A line that ends in a backslash inside quotes. -/
theorem MidLine.backslash (h : MidLine s ['\\']) : LineEnd (s.push line '\\') := by
  have hne := h.begun_ne_nil hq
  have hreplays := h.replays hne
  rw [hq] at hreplays
  have hbegun : (s.push line '\\').begun = s.begun ++ ['\\'] := begun_push s line (Or.inl hne)
  refine ⟨⟨h.refed, h.takes, h.double, fun hnil ↦ ?_, fun _ hnone ↦ ?_, fun _ ↦ ?_⟩, fun _ ↦ ?_⟩
  · simp [hbegun] at hnil
  · simp [push, hq] at hnone
  · rw [hbegun, List.append_nil]
    exact h.not_comment hne
  · have hnext := hreplays.backslash_space
    rw [← hq] at hnext
    rw [hbegun]
    exact hnext

end Quoted

end Characters

/-! ## Lines -/

theorem MidLine.lineEnd {s : Scan} (h : MidLine s []) : LineEnd s := by
  refine ⟨h.toReady, fun hne ↦ (h.replays hne).space (first?_begun hne) ?_⟩
  intro hspace
  exact absurd (h.double ' ' hspace) (by decide)

theorem MidLine.comment {s : Scan} {c : Char} {rest : Text} (h : MidLine s (c :: rest))
    (hstart : s.startsComment c rest = true) (line : Nat) :
    LineEnd (s.comment line (c :: rest)) := by
  rw [startsComment, Bool.and_eq_true] at hstart
  obtain ⟨hblank, hmarker⟩ := hstart
  obtain ⟨hquote, hdepth⟩ := h.clean ((begun_eq_nil_iff s).mpr hblank)
  have hcomment : Statement.commentMarker.isPrefixOf (Text.trim (c :: rest)) = true := by
    rw [List.isPrefixOf_iff_prefix] at hmarker ⊢
    exact Text.isPrefix_trim (by decide) (by decide) (by decide) hmarker
  refine (midLine_of_begun (s := s.comment line (c :: rest)) [] rfl hquote hdepth
    (h.refed.comment line (Text.isTrimmed_trim _) hcomment) ?_).lineEnd
  intro previous earlier heq hbrace
  obtain ⟨rfl, rfl⟩ := List.cons.inj heq
  simp [takesBrace, Statement.isComment, hcomment] at hbrace

theorem MidLine.readChars (line : Nat) (t : Text) {s : Scan} (h : MidLine s t) (hsound : s.Sound)
    (ht : '\'' ∉ t) : LineEnd (readChars line t s) := by
  have htail : ∀ {c : Char} {rest : Text}, '\'' ∉ c :: rest → c ≠ '\'' ∧ '\'' ∉ rest := by
    intro c rest hnot
    exact ⟨fun heq ↦ hnot (by simp [heq]), fun hmem ↦ hnot (List.mem_cons_of_mem c hmem)⟩
  fun_induction Scan.readChars line t s with
  | case1 s => exact h.lineEnd
  | case2 s q hq => exact h.backslash line hq
  | case3 s q hq escaped rest ih =>
    exact ih (h.escaped line hq) (hsound.push_escaped hq line escaped) (htail (htail ht).2).2
  | case4 rest s q hq hbackslash ih =>
    exact ih (h.closing line hq hbackslash) (hsound.push_closing hq line) (htail ht).2
  | case5 c rest s q hq hbackslash hc ih =>
    exact ih (h.quoted line hq hbackslash hc) (hsound.push_quoted hq line hc) (htail ht).2
  | case6 c rest s hquote hstart => exact h.comment hstart line
  | case7 c rest s hquote hstart ih =>
    exact ih (h.readPlain line hsound hquote (Bool.of_not_eq_true hstart) (htail ht).1)
      (hsound.readPlain hquote line c rest) (htail ht).2

/-- A statement that goes on is joined with the next line. -/
theorem LineEnd.join {s : Scan} (h : LineEnd s) (rest : Text) :
    MidLine { s with pending := ' ' :: s.pending } rest := by
  by_cases hnil : s.begun = []
  · obtain ⟨hquote, hdepth⟩ := h.clean hnil
    exact midLine_of_begun rest (begun_push_blank s 0 hnil (by decide)) hquote hdepth h.refed
      h.takes
  · have hbegun : ({ s with pending := ' ' :: s.pending } : Scan).begun = s.begun ++ [' '] :=
      begun_push s 0 (Or.inl hnil)
    have htext : ({ s with pending := ' ' :: s.pending } : Scan).text = s.text :=
      text_push_blank s 0 (by decide)
    refine ⟨⟨h.refed, h.takes, h.double, fun hnone ↦ ?_, fun _ hnone ↦ ?_, fun _ ↦ ?_⟩,
      fun _ ↦ ?_⟩
    · simp [hbegun] at hnone
    · rw [htext]
      exact h.ended hnil hnone
    · rw [hbegun, List.append_assoc]
      have hcomment := h.not_comment hnil
      rw [List.append_nil] at hcomment
      exact not_comment_append_space hnil hcomment rest
    · rw [hbegun]
      exact h.replays hnil

/-- A statement that does not go on ends with its line, and ends there when it is scanned again. -/
theorem LineEnd.flush {s : Scan} (h : LineEnd s) (hcontinued : s.isContinued = false)
    (rest : Text) : MidLine s.flush rest := by
  simp only [isContinued, Bool.or_eq_false_iff, Option.isSome_eq_false_iff,
    Option.isNone_iff_eq_none, bne_eq_false_iff_eq] at hcontinued
  obtain ⟨⟨⟨hquote, hdepth⟩, hcomma⟩, hdangling⟩ := hcontinued
  by_cases hnil : s.begun = []
  · have hnone := s.text_eq_nil hnil
    rw [Scan.flush, if_pos (Or.inl hnone)]
    exact midLine_of_begun rest rfl hquote hdepth h.refed h.takes
  · have hreplays := h.ended hnil hquote
    rw [hdepth] at hreplays
    refine midLine_flush rest hquote hdepth (text_ne_nil hnil) hreplays.ne_semicolon ?_
      fun _ ↦ ⟨h.refed, hreplays⟩
    refine h.refed.whole s.startLine hreplays (Text.isTrimmed_trim _) (text_ne_nil hnil)
      (h.text_not_comment hnil) ?_
    rw [hcomma, hdangling]
    rfl

theorem LineEnd.endLine {s : Scan} (h : LineEnd s) (rest : Text) : MidLine s.endLine rest := by
  unfold Scan.endLine
  split
  · split
    · next hpending =>
      have hnil : s.begun = [] := by
        rw [begun, hpending]
        rfl
      obtain ⟨hquote, hdepth⟩ := h.clean hnil
      exact midLine_of_begun rest hnil hquote hdepth h.refed h.takes
    · exact h.join rest
  · next hcontinued => exact h.flush (Bool.of_not_eq_true hcontinued) rest

theorem MidLine.readLine {s : Scan} (h : ∀ rest, MidLine s rest) (hsound : s.Sound) (line : Nat)
    {t : Text} (ht : '\'' ∉ t) (rest : Text) : MidLine (s.readLine line t) rest := by
  have hmem : '\'' ∉ Text.trim t := by
    obtain ⟨before, after, heq, -, -⟩ := Text.exists_trim_eq t
    intro hmem
    rw [heq] at ht
    exact ht (by simp [hmem])
  exact ((h _).readChars line (Text.trim t) hsound hmem).endLine rest

theorem MidLine.foldl_readLine (lines : List (Nat × Text)) (hlines : ∀ l ∈ lines, '\'' ∉ l.2)
    {s : Scan} (h : ∀ rest, MidLine s rest) (hsound : s.Sound) (rest : Text) :
    MidLine (lines.foldl (fun s l ↦ s.readLine l.1 l.2) s) rest := by
  induction lines generalizing s with
  | nil => exact h rest
  | cons l lines ih =>
    exact ih (fun l' hl' ↦ hlines l' (List.mem_cons_of_mem l hl'))
      (MidLine.readLine h hsound l.1 (hlines l List.mem_cons_self)) (hsound.readLine l.1 l.2)

/-- The statements of a finished scan are scanned to themselves. -/
theorem Ready.refeed {s : Scan} {rest : Text} (h : Ready s rest) (hquote : s.quote = none) :
    Statement.scanLines (s.flush.finished.reverse.map fun st ↦ (st.line, st.text)) =
      .ok s.flush.finished.reverse := by
  obtain ⟨start, hstart⟩ := h.refed
  rw [Statement.scanLines, List.foldl_map]
  by_cases hnil : s.begun = []
  · have hnone := s.text_eq_nil hnil
    have hfinished : s.flush.finished = s.finished := by
      rw [flush, if_pos (Or.inl hnone)]
    rw [hfinished, hstart]
    rfl
  · have hreplays := h.ended hnil hquote
    have htrimmed : s.text.IsTrimmed := Text.isTrimmed_trim _
    obtain ⟨hkept, -⟩ := endLine_keeps (amid s.finished s.startLine s.text none s.depth)
    rw [flush_of_text (text_ne_nil hnil) hreplays.ne_semicolon, List.reverse_cons,
      List.foldl_append, hstart]
    simp only [List.foldl_cons, List.foldl_nil]
    rw [readLine_of_replays _ _ _ hreplays htrimmed (h.text_not_comment hnil), finish, hkept,
      flush_endLine, flush_amid htrimmed (text_ne_nil hnil) hreplays.ne_semicolon]
    simp [amid, between]

end Scan

namespace Text

theorem mem_of_mem_lines {t l : Text} (hl : l ∈ lines t) {c : Char} (hc : c ∈ l) : c ∈ t := by
  fun_induction lines t generalizing l with
  | case1 => cases hl
  | case2 rest ih =>
    rcases List.mem_cons.mp hl with rfl | hl
    · cases hc
    · exact List.mem_cons_of_mem _ (ih hl hc)
  | case3 rest ih =>
    rcases List.mem_cons.mp hl with rfl | hl
    · cases hc
    · exact List.mem_cons_of_mem _ (List.mem_cons_of_mem _ (ih hl hc))
  | case4 d rest _ _ hlines ih =>
    obtain rfl := List.mem_singleton.mp hl
    obtain rfl := List.mem_singleton.mp hc
    exact List.mem_cons_self
  | case5 d rest _ _ line more hlines ih =>
    rcases List.mem_cons.mp hl with rfl | hl
    · rcases List.mem_cons.mp hc with rfl | hc
      · exact List.mem_cons_self
      · exact List.mem_cons_of_mem _ (ih (by simp [hlines]) hc)
    · exact List.mem_cons_of_mem _ (ih (by simp [hlines, hl]) hc)

end Text

/-- The statements of a source without apostrophes are scanned to themselves. -/
theorem Statement.scanLines_of_scan {source : Text} {statements : List Statement}
    (hsource : '\'' ∉ source) (h : Statement.scan source = .ok statements) :
    Statement.scanLines (statements.map fun s ↦ (s.line, s.text)) = .ok statements := by
  have hlines : ∀ l ∈ (Text.lines source).zipIdx 1 |>.map Prod.swap, '\'' ∉ l.2 := by
    intro l hl hmem
    obtain ⟨l', hl', rfl⟩ := List.mem_map.mp hl
    exact hsource (Text.mem_of_mem_lines (List.fst_mem_of_mem_zipIdx hl') hmem)
  have hstart : ∀ rest, Scan.MidLine {} rest := fun rest ↦
    Scan.midLine_of_begun rest rfl rfl rfl Scan.refed_nil (by simp)
  have hread := Scan.MidLine.foldl_readLine _ hlines hstart Scan.sound_empty []
  unfold Statement.scan Statement.scanLines Scan.finish at h
  split at h
  · cases h
  · next hquote =>
    cases h
    exact hread.toReady.refeed (by simpa using hquote)

theorem Statement.scanLines_of_scan_joined :
    '\'' ∉ "a,\nb\n\x7b\n--t: \"x\\\n\\\"y\nz\"; // c\ncolor: red \x7d\nf(".toList ∧
      ∃ statements : List Statement,
        Statement.scan "a,\nb\n\x7b\n--t: \"x\\\n\\\"y\nz\"; // c\ncolor: red \x7d\nf(".toList =
          .ok statements ∧
        statements.map Statement.line = [1, 4, 6, 7, 7, 8] ∧
        Statement.scanLines (statements.map fun s ↦ (s.line, s.text)) = .ok statements := by
  have hsource :
      '\'' ∉ "a,\nb\n\x7b\n--t: \"x\\\n\\\"y\nz\"; // c\ncolor: red \x7d\nf(".toList := by
    decide
  have hscan : Statement.scan
      "a,\nb\n\x7b\n--t: \"x\\\n\\\"y\nz\"; // c\ncolor: red \x7d\nf(".toList =
      .ok [⟨"a, b \x7b".toList, 1⟩, ⟨"--t: \"x\\ \\\"y z\";".toList, 4⟩, ⟨"// c".toList, 6⟩,
        ⟨"color: red".toList, 7⟩, ⟨"\x7d".toList, 7⟩, ⟨"f(".toList, 8⟩] := by
    cbv
  exact ⟨hsource, _, hscan, rfl, Statement.scanLines_of_scan hsource hscan⟩

end StyledMarkup
