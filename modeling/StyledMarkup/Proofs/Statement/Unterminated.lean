import StyledMarkup.Builder.Feed
import StyledMarkup.Proofs.Statement.Completes

/-!
# Where an unterminated string is reported

A source is refused when a quote is open at its end. Some character opened that quote and nothing
after it closes it, so the quote stands on one physical line. The error, however, gives the line on
which the unfinished statement starts. That is the line of the quote exactly if the statement that
holds the quote is not carried over from an earlier line.
-/

namespace StyledMarkup

namespace Scan

/-! ## Reading along a line -/

/-- The text closes a quote: the quote character is in it and no backslash takes it along. -/
def closes (q : Char) : Text → Bool
  | [] => false
  | ['\\'] => false
  | '\\' :: _ :: rest => closes q rest
  | c :: rest => c == q || closes q rest

/-- One move of reading along a line: from a text that is left to be read and a scan to what is left
after the move and the scan then. -/
inductive Advances (line : Nat) : Text → Scan → Text → Scan → Prop
  | escaped {s : Scan} {q c : Char} {rest : Text} (hq : s.quote = some q) :
    Advances line ('\\' :: c :: rest) s rest ((s.push line '\\').push line c)
  | closing {s : Scan} {q : Char} {rest : Text} (hq : s.quote = some q) (hbackslash : q ≠ '\\') :
    Advances line (q :: rest) s rest { s.push line q with quote := none }
  | quoted {s : Scan} {q c : Char} {rest : Text} (hq : s.quote = some q) (hbackslash : c ≠ '\\')
    (hc : c ≠ q) : Advances line (c :: rest) s rest (s.push line c)
  | plain {s : Scan} {c : Char} {rest : Text} (hquote : s.quote = none)
    (hcomment : s.startsComment c rest = false) :
    Advances line (c :: rest) s rest (s.readPlain line c rest)

/-- Reading a text along a line comes to what is left of it, with the scan as given. -/
inductive Comes (line : Nat) : Text → Scan → Text → Scan → Prop
  | here (t : Text) (s : Scan) : Comes line t s t s
  | further {t t' t'' : Text} {s s' s'' : Scan} (hstep : Advances line t s t' s')
    (hrest : Comes line t' s' t'' s'') : Comes line t s t'' s''

section Line

variable {line : Nat} {t t' : Text} {s s' : Scan} {q : Char}

/-- What every move keeps holds as far as reading comes. -/
theorem Comes.keeps {P : Text → Scan → Prop}
    (hP : ∀ {t t' s s'}, Advances line t s t' s' → P t s → P t' s') (h : Comes line t s t' s')
    (hs : P t s) : P t' s' := by
  induction h with
  | here => exact hs
  | further hstep _ ih => exact ih (hP hstep hs)

theorem Advances.readChars_eq (h : Advances line t s t' s') :
    readChars line t s = readChars line t' s' := by
  cases h with
  | escaped hq => exact readChars_cons_of_escaped line hq
  | closing hq hbackslash => exact readChars_cons_of_closing line hq hbackslash
  | quoted hq hbackslash hc => exact readChars_cons_of_quoted line hq hbackslash hc
  | plain hquote hcomment => exact readChars_cons_of_plain line hquote hcomment

theorem Comes.readChars_eq (h : Comes line t s t' s') :
    readChars line t s = readChars line t' s' := by
  induction h with
  | here => rfl
  | further hstep _ ih => exact hstep.readChars_eq.trans ih

theorem Advances.sound (h : Advances line t s t' s') (hs : s.Sound) : s'.Sound := by
  cases h with
  | escaped hq => exact hs.push_escaped hq line _
  | closing hq => exact hs.push_closing hq line
  | quoted hq _ hc => exact hs.push_quoted hq line hc
  | plain hquote => exact hs.readPlain hquote line _ _

/-! ## A quote that is not closed -/

theorem closes_cons {c : Char} (hc : c ≠ '\\') (rest : Text) :
    closes q (c :: rest) = (c == q || closes q rest) := by
  rw [closes.eq_def]
  split <;> simp_all

/-- As long as nothing closes it, a quote stays open. -/
theorem Advances.stays_open (h : Advances line t s t' s') (hs : s.quote = some q)
    (ht : closes q t = false) : s'.quote = some q ∧ closes q t' = false := by
  cases h with
  | escaped hq => exact ⟨hs, ht⟩
  | @closing _ q' rest hq hbackslash =>
    obtain rfl : q' = q := Option.some.inj (hq.symm.trans hs)
    simp [closes_cons hbackslash] at ht
  | quoted hq hbackslash hc =>
    rw [closes_cons hbackslash, Bool.or_eq_false_iff] at ht
    exact ⟨hs, ht.2⟩
  | plain hquote => simp [hs] at hquote

/-- A statement that has begun goes on from the line it started on. -/
theorem push_begun (line : Nat) (c : Char) (h : Text.allBlank s.pending = false) :
    Text.allBlank (s.push line c).pending = false ∧ (s.push line c).startLine = s.startLine := by
  rw [push_of_pending line h]
  exact ⟨allBlank_append [c] h, rfl⟩

theorem readChars_of_not_closes (line : Nat) (hs : s.quote = some q) (ht : closes q t = false)
    (hpending : Text.allBlank s.pending = false) :
    (readChars line t s).quote = some q ∧ Text.allBlank (readChars line t s).pending = false ∧
      (readChars line t s).startLine = s.startLine := by
  fun_induction readChars line t s with
  | case1 s => exact ⟨hs, hpending, rfl⟩
  | case2 s q' hq => exact ⟨hs, push_begun line '\\' hpending⟩
  | case3 s q' hq c rest ih =>
    obtain ⟨hblank, hstart⟩ := push_begun line '\\' hpending
    obtain ⟨hblank', hstart'⟩ := push_begun line c hblank
    obtain ⟨hquote, hblank'', hstart''⟩ := ih hs ht hblank'
    exact ⟨hquote, hblank'', hstart''.trans (hstart'.trans hstart)⟩
  | case4 rest s q' hq hbackslash ih =>
    obtain rfl : q' = q := Option.some.inj (hq.symm.trans hs)
    simp [closes_cons hbackslash] at ht
  | case5 c rest s q' hq hbackslash hc ih =>
    obtain ⟨hblank, hstart⟩ := push_begun line c hpending
    rw [closes_cons hbackslash, Bool.or_eq_false_iff] at ht
    obtain ⟨hquote, hblank', hstart'⟩ := ih hs ht.2 hblank
    exact ⟨hquote, hblank', hstart'.trans hstart⟩
  | case6 c rest s hquote => simp [hs] at hquote
  | case7 c rest s hquote => simp [hs] at hquote

theorem endLine_of_quote (hs : s.quote = some q) (hpending : Text.allBlank s.pending = false) :
    s.endLine.quote = some q ∧ Text.allBlank s.endLine.pending = false ∧
      s.endLine.startLine = s.startLine := by
  have hcontinued : s.isContinued = true := by simp [isContinued, hs]
  rw [endLine, if_pos hcontinued]
  split
  · exact ⟨hs, hpending, rfl⟩
  · exact ⟨hs, allBlank_append [' '] hpending, rfl⟩

theorem foldl_readLine_of_not_closes {lines : List (Nat × Text)}
    (hlines : ∀ l ∈ lines, closes q (Text.trim l.2) = false) (hs : s.quote = some q)
    (hpending : Text.allBlank s.pending = false) :
    (lines.foldl (fun s l ↦ s.readLine l.1 l.2) s).quote = some q ∧
      (lines.foldl (fun s l ↦ s.readLine l.1 l.2) s).startLine = s.startLine := by
  induction lines generalizing s with
  | nil => exact ⟨hs, rfl⟩
  | cons l lines ih =>
    rw [List.forall_mem_cons] at hlines
    obtain ⟨hquote, hblank, hstart⟩ := readChars_of_not_closes l.1 hs hlines.1 hpending
    obtain ⟨hquote', hblank', hstart'⟩ := endLine_of_quote hquote hblank
    obtain ⟨hquote'', hstart''⟩ := ih hlines.2 hquote' hblank'
    exact ⟨hquote'', hstart''.trans (hstart'.trans hstart)⟩

/-! ## The character that opens a quote -/

/-- The next character opens a quote that the rest of its line does not close. -/
structure LeavesOpen (s : Scan) (q : Char) (rest : Text) : Prop where
  quote : s.quote = none
  comment : s.startsComment q rest = false
  opens : s.opensQuote q rest = true
  rest : closes q rest = false

/-- From the quote on, the rest of the line is quoted text. -/
theorem LeavesOpen.readChars {rest : Text} (line : Nat) (h : s.LeavesOpen q rest) :
    (readChars line (q :: rest) s).quote = some q ∧
      Text.allBlank (readChars line (q :: rest) s).pending = false ∧
      (readChars line (q :: rest) s).startLine =
        if Text.allBlank s.pending then line else s.startLine := by
  have hq : Text.isBlank q = false := by
    have hopens := h.opens
    simp only [opensQuote, Bool.and_eq_true, Bool.or_eq_true, beq_iff_eq] at hopens
    rcases hopens.2 with rfl | ⟨rfl, -⟩ <;> decide
  have hblank : Text.allBlank (q :: s.pending) = false := by
    rw [Text.allBlank, List.all_cons, hq, Bool.false_and]
  rw [readChars_cons_of_plain line h.quote h.comment, readPlain, if_pos h.opens]
  exact readChars_of_not_closes (s := { s.push line q with quote := some q }) line rfl h.rest hblank

theorem quote_readPlain {c : Char} {rest : Text} (hquote : s.quote = none)
    (h : (s.readPlain line c rest).quote = some q) : s.opensQuote c rest = true ∧ c = q := by
  have hflush : ∀ s : Scan, s.flush.quote = s.quote := fun s ↦ (flush_clean s).2.1
  have hflushOpener : ∀ s : Scan, s.flushOpener.quote = s.quote := fun s ↦
    (flushOpener_clean s).2.1
  have hread := reads s line c rest
  generalize s.readPlain line c rest = s' at hread h
  cases hread with
  | quote hopens => exact ⟨hopens, Option.some.inj h⟩
  | opening | closing | plain => simp [push, hquote] at h
  | semicolon | closer => simp [hflush, push, hquote] at h
  | opener => simp [hflushOpener, push, hquote] at h

/-- A quote that is open at the end of a line was open at its start and is not closed on it, or is
opened on it. -/
theorem exists_leavesOpen (h : (readChars line t s).quote = some q) :
    (s.quote = some q ∧ closes q t = false) ∨
      ∃ rest s', Comes line t s (q :: rest) s' ∧ s'.LeavesOpen q rest := by
  fun_induction readChars line t s with
  | case1 s => exact Or.inl ⟨h, rfl⟩
  | case2 s q' hq => exact Or.inl ⟨h, rfl⟩
  | case3 s q' hq c rest ih =>
    rcases ih h with hopen | ⟨rest', s', hcomes, hopen⟩
    · exact Or.inl hopen
    · exact Or.inr ⟨rest', s', .further (.escaped hq) hcomes, hopen⟩
  | case4 rest s q' hq hbackslash ih =>
    rcases ih h with ⟨hnone, -⟩ | ⟨rest', s', hcomes, hopen⟩
    · cases hnone
    · exact Or.inr ⟨rest', s', .further (.closing hq hbackslash) hcomes, hopen⟩
  | case5 c rest s q' hq hbackslash hc ih =>
    rcases ih h with ⟨hopen, hrest⟩ | ⟨rest', s', hcomes, hopen⟩
    · obtain rfl : q' = q := Option.some.inj (hq.symm.trans hopen)
      refine Or.inl ⟨hq, ?_⟩
      rw [closes_cons hbackslash, hrest, Bool.or_false]
      simpa using hc
    · exact Or.inr ⟨rest', s', .further (.quoted hq hbackslash hc) hcomes, hopen⟩
  | case6 c rest s hquote hstart => simp [Scan.comment, hquote] at h
  | case7 c rest s hquote hstart ih =>
    have hcomment := Bool.of_not_eq_true hstart
    rcases ih h with ⟨hopen, hrest⟩ | ⟨rest', s', hcomes, hopen⟩
    · obtain ⟨hopens, rfl⟩ := quote_readPlain hquote hopen
      exact Or.inr ⟨rest, s, .here _ s, hquote, hcomment, hopens, hrest⟩
    · exact Or.inr ⟨rest', s', .further (.plain hquote hcomment) hcomes, hopen⟩

end Line

/-! ## The line of the quote -/

/-- The scan after some numbered lines. -/
def ofNumbered (lines : List (Nat × Text)) : Scan :=
  lines.foldl (fun s l ↦ s.readLine l.1 l.2) {}

theorem ofNumbered_append (lines more : List (Nat × Text)) :
    ofNumbered (lines ++ more) = more.foldl (fun s l ↦ s.readLine l.1 l.2) (ofNumbered lines) :=
  List.foldl_append

theorem ofNumbered_sound (lines : List (Nat × Text)) : (ofNumbered lines).Sound := by
  induction lines using List.reverseRecOn with
  | nil => exact sound_empty
  | append_singleton lines l ih =>
    rw [ofNumbered_append]
    exact ih.readLine l.1 l.2

/-- A quote that is still open at the end of some lines: the line on which it stands, with the lines
before and after it, what follows it on its line, and the scan when it is opened. -/
structure OpenQuote (lines : List (Nat × Text)) where
  before : List (Nat × Text)
  line : Nat
  text : Text
  after : List (Nat × Text)
  lines_eq : lines = before ++ (line, text) :: after
  quote : Char
  rest : Text
  scan : Scan
  comes : Comes line (Text.trim text) (ofNumbered before) (quote :: rest) scan
  leavesOpen : scan.LeavesOpen quote rest
  after_open : ∀ l ∈ after, closes quote (Text.trim l.2) = false

theorem exists_openQuote {lines : List (Nat × Text)} {q : Char}
    (h : (ofNumbered lines).quote = some q) : ∃ o : OpenQuote lines, o.quote = q := by
  induction lines using List.reverseRecOn with
  | nil => cases h
  | append_singleton lines l ih =>
    have hread : (readChars l.1 (Text.trim l.2) (ofNumbered lines)).quote = some q := by
      rw [ofNumbered_append] at h
      exact (endLine_keeps _).1.symm.trans h
    rcases exists_leavesOpen hread with ⟨hquote, hline⟩ | ⟨rest, s, hcomes, hopen⟩
    · obtain ⟨o, rfl⟩ := ih hquote
      refine ⟨{ o with after := o.after ++ [l], lines_eq := ?_, after_open := ?_ }, rfl⟩
      · exact (congrArg (· ++ [l]) o.lines_eq).trans (by simp)
      · rw [List.forall_mem_append, List.forall_mem_singleton]
        exact ⟨o.after_open, hline⟩
    · exact ⟨⟨lines, l.1, l.2, [], rfl, q, rest, s, hcomes, hopen, by simp⟩, rfl⟩

namespace OpenQuote

variable {lines : List (Nat × Text)} (o : OpenQuote lines)

/-- The scan at the start of the line. -/
def start : Scan :=
  ofNumbered o.before

/-- From the quote on, nothing but the quoted text is read, and the statement stays the same. -/
theorem ofNumbered_front {front : List (Nat × Text)} (h : front <+: o.after) :
    (ofNumbered (o.before ++ (o.line, o.text) :: front)).quote = some o.quote ∧
      (ofNumbered (o.before ++ (o.line, o.text) :: front)).startLine =
        if Text.allBlank o.scan.pending then o.line else o.scan.startLine := by
  obtain ⟨hquote, hblank, hstart⟩ := o.leavesOpen.readChars o.line
  rw [← o.comes.readChars_eq] at hquote hblank hstart
  obtain ⟨hquote', hblank', hstart'⟩ := endLine_of_quote hquote hblank
  have hfront : ∀ l ∈ front, closes o.quote (Text.trim l.2) = false := fun l hl ↦
    o.after_open l (h.subset hl)
  obtain ⟨hquote'', hstart''⟩ := foldl_readLine_of_not_closes hfront hquote' hblank'
  rw [ofNumbered_append]
  exact ⟨hquote'', hstart''.trans (hstart'.trans hstart)⟩

/-- After a quote that is still open no other one can be opened. -/
theorem not_before (o' : OpenQuote lines) {mid : List (Nat × Text)}
    (hafter : o.after = mid ++ (o'.line, o'.text) :: o'.after)
    (hbefore : o'.before = o.before ++ (o.line, o.text) :: mid) : False := by
  have hopen : (ofNumbered o'.before).quote = some o.quote :=
    hbefore ▸ (o.ofNumbered_front ⟨_, hafter.symm⟩).1
  have hline : closes o.quote (Text.trim o'.text) = false :=
    o.after_open (o'.line, o'.text) (by simp [hafter])
  have hkept : o'.scan.quote = some o.quote ∧ closes o.quote (o'.quote :: o'.rest) = false :=
    o'.comes.keeps (P := fun t s ↦ s.quote = some o.quote ∧ closes o.quote t = false)
      (fun hstep hs ↦ hstep.stays_open hs.1 hs.2) ⟨hopen, hline⟩
  rw [o'.leavesOpen.quote] at hkept
  cases hkept.1

/-- The quote stands on one line only. -/
theorem line_eq (o' : OpenQuote lines) : o'.line = o.line := by
  have hlines := o.lines_eq.symm.trans o'.lines_eq
  rcases List.append_eq_append_iff.mp hlines with ⟨mid, hbefore, hmid⟩ | ⟨mid, hbefore, hmid⟩
  · cases mid with
    | nil => exact (Prod.ext_iff.mp (List.cons.inj hmid).1).1.symm
    | cons l mid =>
      obtain ⟨rfl, hafter⟩ := List.cons.inj hmid
      exact (o.not_before o' hafter hbefore).elim
  · cases mid with
    | nil => exact (Prod.ext_iff.mp (List.cons.inj hmid).1).1
    | cons l mid =>
      obtain ⟨rfl, hafter⟩ := List.cons.inj hmid
      exact (o'.not_before o hafter hbefore).elim

end OpenQuote

/-! ## The line of the statement -/

section Start

variable {line : Nat} {t t' : Text} {s s' : Scan}

/-- The statement being read, if one is, starts on this line. -/
def StartsHere (line : Nat) (s : Scan) : Prop :=
  Text.allBlank s.pending = true ∨ s.startLine = line

theorem startsHere_of_pending (h : s.pending = []) : s.StartsHere line :=
  Or.inl (by rw [h]; rfl)

theorem StartsHere.push (h : s.StartsHere line) (c : Char) : (s.push line c).StartsHere line := by
  right
  rw [Scan.push]
  rcases h with hblank | hstart
  · simp [hblank]
  · simp [hstart]

/-- Reading along a line never ends less statements than before. -/
theorem length_le_flush (s : Scan) : s.finished.length ≤ s.flush.finished.length := by
  unfold Scan.flush
  split <;> simp

theorem length_le_flushOpener (s : Scan) :
    s.finished.length ≤ s.flushOpener.finished.length := by
  unfold Scan.flushOpener
  split
  · exact length_le_flush s
  · next previous earlier hfinished =>
    split
    · simp [hfinished]
    · exact length_le_flush s

theorem StartsHere.advances (hs : s.StartsHere line) (h : Advances line t s t' s') :
    s'.StartsHere line ∧ s.finished.length ≤ s'.finished.length := by
  cases h with
  | escaped => exact ⟨(hs.push '\\').push _, Nat.le_refl _⟩
  | closing => exact ⟨hs.push _, Nat.le_refl _⟩
  | quoted => exact ⟨hs.push _, Nat.le_refl _⟩
  | @plain _ c _ hquote hcomment =>
    have hread := reads s line c t'
    generalize s.readPlain line c t' = s' at hread
    cases hread with
    | quote | opening | closing | plain => exact ⟨hs.push c, Nat.le_refl _⟩
    | semicolon =>
      exact ⟨startsHere_of_pending (flush_clean _).1, length_le_flush (s.push line c)⟩
    | opener =>
      exact ⟨startsHere_of_pending (flushOpener_clean _).1, length_le_flushOpener (s.push line c)⟩
    | closer =>
      exact ⟨startsHere_of_pending (flush_clean _).1,
        (length_le_flush s).trans (length_le_flush (s.flush.push line c))⟩

/-- No semicolon is left pending. -/
theorem Sound.text_ne_semicolon (h : s.Sound) : s.text ≠ [';'] := by
  intro htext
  have hunended := h.unended.of_text
  rw [htext] at hunended
  exact hunended [] [] rfl rfl

theorem length_lt_flush (hne : s.text ≠ []) (hsemicolon : s.text ≠ [';']) :
    s.finished.length < s.flush.finished.length := by
  rw [flush_of_text hne hsemicolon]
  exact Nat.lt_succ_self _

/-- A statement that has begun is carried on by a move, or ended by it. -/
theorem Advances.carries_or_ends (h : Advances line t s t' s') (hsound : s.Sound)
    (hs : Text.allBlank s.pending = false) :
    (s'.finished = s.finished ∧ Text.allBlank s'.pending = false ∧ s'.startLine = s.startLine) ∨
      (s.finished.length < s'.finished.length ∧ s'.pending = []) := by
  have hbegun : s.begun ≠ [] := by
    rw [ne_eq, begun_eq_nil_iff, hs]
    exact Bool.false_ne_true
  -- one more character makes the statement longer than a brace or a semicolon
  have hlonger : ∀ c d, Text.isBlank c = false → (s.push line c).text ≠ [d] := by
    intro c d hc heq
    rw [text_push s line hc] at heq
    have hlength := congrArg List.length heq
    have hpos := List.length_pos_iff.mpr hbegun
    simp only [List.length_append, List.length_cons, List.length_nil] at hlength
    omega
  have hended : ∀ c, Text.isBlank c = false →
      s.finished.length < (s.push line c).flush.finished.length := by
    intro c hc
    refine length_lt_flush (s := s.push line c) ?_ (hlonger c ';' hc)
    rw [text_push s line hc]
    simp
  cases h with
  | @escaped _ q c _ =>
    obtain ⟨hblank, hstart⟩ := push_begun line '\\' hs
    obtain ⟨hblank', hstart'⟩ := push_begun line c hblank
    exact Or.inl ⟨rfl, hblank', hstart'.trans hstart⟩
  | closing => exact Or.inl ⟨rfl, push_begun line _ hs⟩
  | quoted => exact Or.inl ⟨rfl, push_begun line _ hs⟩
  | @plain _ c _ hquote hcomment =>
    have hread := reads s line c t'
    generalize s.readPlain line c t' = s' at hread
    cases hread with
    | quote | opening | closing | plain => exact Or.inl ⟨rfl, push_begun line c hs⟩
    | semicolon hdepth hc =>
      exact Or.inr ⟨hended c (by rw [hc]; decide), (flush_clean _).1⟩
    | opener hdepth hc =>
      have hblank : Text.isBlank c = false := by rw [hc]; decide
      rw [flushOpener_eq_flush (hlonger c '{' hblank)]
      exact Or.inr ⟨hended c hblank, (flush_clean _).1⟩
    | closer =>
      have hflush := length_lt_flush (text_ne_nil hbegun) hsound.text_ne_semicolon
      exact Or.inr ⟨Nat.lt_of_lt_of_le hflush (length_le_flush (s.flush.push line c)),
        (flush_clean _).1⟩

theorem Accounts.spells {pieces : List (List (Nat × Char))} {opened : List (Nat × Char)}
    (h : s.Accounts pieces opened) : Statement.Spells ⟨s.text, s.startLine⟩ opened := by
  constructor
  · rw [h.pending, text, Text.filter_trim]
  · rw [h.start, text, Text.head?_trim]

/-- A statement that has begun starts on one of the lines read. -/
theorem exists_startLine {lines : List (Nat × Text)}
    (h : Text.allBlank (ofNumbered lines).pending = false) :
    ∃ l ∈ lines, (ofNumbered lines).startLine = l.1 := by
  obtain ⟨pieces, opened, hacc, hread⟩ := hasRead_empty.foldl_readLine lines sound_empty
  obtain ⟨c, hc⟩ : ∃ c, Text.first? (ofNumbered lines).pending.reverse = some c := by
    rw [← Option.ne_none_iff_exists', ne_eq, first?_pending_eq_none_iff, h]
    exact Bool.false_ne_true
  have hmem : ((ofNumbered lines).startLine, c) ∈ lines.flatMap fun l ↦ Text.solids l.1 l.2 := by
    rw [List.nil_append] at hread
    rw [hread]
    refine List.mem_append_right _ (List.mem_of_head? ?_)
    rw [hacc.start]
    exact congrArg (Option.map _) hc
  obtain ⟨l, hl, hsolid⟩ := List.mem_flatMap.mp hmem
  obtain ⟨d, -, hd⟩ := List.mem_map.mp hsolid
  exact ⟨l, hl, (Prod.ext_iff.mp hd).1.symm⟩

end Start

/-- The unfinished statement starts on the line of the quote exactly if nothing was being read at
the start of that line or it was ended before the quote. -/
theorem OpenQuote.startLine_iff {lines : List (Nat × Text)} (o : OpenQuote lines)
    (hlines : ∀ l ∈ o.before, l.1 < o.line) :
    (ofNumbered lines).startLine ≤ o.line ∧
      ((ofNumbered lines).startLine = o.line ↔
        Text.allBlank o.start.pending = true ∨ o.scan.finished ≠ o.start.finished) := by
  have hlast : (ofNumbered lines).startLine =
      if Text.allBlank o.scan.pending then o.line else o.scan.startLine := by
    have hfront := (o.ofNumbered_front List.prefix_rfl).2
    rwa [← o.lines_eq] at hfront
  have hhere : o.scan.StartsHere o.line → (ofNumbered lines).startLine = o.line := by
    rintro (hblank | hstart)
    · rw [hlast, if_pos hblank]
    · rw [hlast, hstart, ite_self]
  cases hblank : Text.allBlank o.start.pending with
  | true =>
    have hstarts : o.scan.StartsHere o.line :=
      o.comes.keeps (P := fun _ s ↦ s.StartsHere o.line) (fun hstep hs ↦ (hs.advances hstep).1)
        (Or.inl hblank)
    simp [hhere hstarts]
  | false =>
    have hkept : o.scan.Sound ∧
        ((o.scan.finished = o.start.finished ∧ Text.allBlank o.scan.pending = false ∧
            o.scan.startLine = o.start.startLine) ∨
          (o.start.finished.length < o.scan.finished.length ∧ o.scan.StartsHere o.line)) := by
      refine o.comes.keeps (P := fun _ s ↦ s.Sound ∧
        ((s.finished = o.start.finished ∧ Text.allBlank s.pending = false ∧
            s.startLine = o.start.startLine) ∨
          (o.start.finished.length < s.finished.length ∧ s.StartsHere o.line))) ?_
        ⟨ofNumbered_sound _, Or.inl ⟨rfl, hblank, rfl⟩⟩
      rintro t t' s s' hstep ⟨hsound, ⟨hfinished, hpending, hstart⟩ | ⟨hlength, hstarts⟩⟩
      · refine ⟨hstep.sound hsound, ?_⟩
        rcases hstep.carries_or_ends hsound hpending with ⟨hfinished', hpending', hstart'⟩ |
          ⟨hlength, hnil⟩
        · exact Or.inl ⟨hfinished'.trans hfinished, hpending', hstart'.trans hstart⟩
        · exact Or.inr ⟨hfinished ▸ hlength, startsHere_of_pending hnil⟩
      · obtain ⟨hstarts', hlength'⟩ := hstarts.advances hstep
        exact ⟨hstep.sound hsound, Or.inr ⟨Nat.lt_of_lt_of_le hlength hlength', hstarts'⟩⟩
    rcases hkept.2 with ⟨hfinished, hpending, hstart⟩ | ⟨hlength, hstarts⟩
    · obtain ⟨l, hl, hline⟩ := exists_startLine hblank
      have hearlier : (ofNumbered lines).startLine < o.line := by
        rw [hlast, if_neg (by simp [hpending]), hstart]
        exact hline.trans_lt (hlines l hl)
      simp [hfinished, Nat.le_of_lt hearlier, Nat.ne_of_lt hearlier]
    · have hne : o.scan.finished ≠ o.start.finished := by
        intro heq
        rw [heq] at hlength
        exact Nat.lt_irrefl _ hlength
      simp [hhere hstarts, hne]

end Scan

namespace Statement

open Scan (OpenQuote)

/-- The physical lines of a source, numbered from one. -/
def numberedLines (source : Text) : List (Nat × Text) :=
  (Text.lines source).zipIdx 1 |>.map Prod.swap

theorem lt_of_mem_before {source : Text} (o : OpenQuote (numberedLines source)) :
    ∀ l ∈ o.before, l.1 < o.line := by
  have hnumbers : (numberedLines source).map Prod.fst =
      List.range' 1 (Text.lines source).length := by
    rw [numberedLines, List.map_map, ← List.zipIdx_map_snd 1 (Text.lines source)]
    rfl
  have hsorted : ((numberedLines source).map Prod.fst).Pairwise (· < ·) := by
    rw [hnumbers]
    exact List.pairwise_lt_range'
  rw [o.lines_eq, List.map_append, List.pairwise_append] at hsorted
  intro l hl
  exact hsorted.2.2 l.1 (List.mem_map_of_mem hl) o.line List.mem_cons_self

/-- A source is refused only if a quote is still open at its end, and that quote stands on one line.
The error has the text and the line of the unfinished statement; that is the line of the quote
exactly if the statement is not carried over to it from an earlier line. -/
theorem line_of_unterminated {source : Text} {e : ScanError} (h : scan source = .error e) :
    (∃ piece, piece <:+ ((Text.numbered 1 source).filter fun x ↦ Text.isSolid x.2) ∧
        Spells ⟨e.text, e.line⟩ piece) ∧
      Nonempty (OpenQuote (numberedLines source)) ∧
      (∀ o : OpenQuote (numberedLines source), e.line ≤ o.line ∧
        (e.line = o.line ↔
          Text.allBlank o.start.pending = true ∨ o.scan.finished ≠ o.start.finished) ∧
        ∀ o' : OpenQuote (numberedLines source), o'.line = o.line) ∧
      ∀ settings base, Document.parse settings base source =
        .error ⟨.unterminatedString, e.line, e.text⟩ := by
  have hparse : ∀ settings base, Document.parse settings base source =
      .error ⟨.unterminatedString, e.line, e.text⟩ := by
    intro settings base
    rw [Document.parse, h]
    rfl
  have hfinish : (Scan.ofNumbered (numberedLines source)).finish = .error e := h
  unfold Scan.finish at hfinish
  split at hfinish
  · next hquote =>
    obtain ⟨q, hq⟩ := Option.isSome_iff_exists.mp hquote
    obtain ⟨o, -⟩ := Scan.exists_openQuote hq
    obtain rfl := Except.error.inj hfinish
    refine ⟨?_, ⟨o⟩, fun o ↦ ?_, hparse⟩
    · obtain ⟨pieces, opened, hacc, hread⟩ :=
        Scan.hasRead_empty.foldl_readLine (numberedLines source) Scan.sound_empty
      refine ⟨opened, ⟨pieces.reverse.flatten, ?_⟩, hacc.spells⟩
      rw [← hread, List.nil_append, Text.filter_numbered, numberedLines, List.flatMap_map]
      rfl
    · obtain ⟨hle, hiff⟩ := o.startLine_iff (lt_of_mem_before o)
      exact ⟨hle, hiff, o.line_eq⟩
  · cases hfinish

theorem line_of_unterminated_carried :
    ∃ e, scan "a;\n--title: 'x' (\n\"y\", \"z".toList = .error e ∧ e.line = 2 ∧
      (∀ o : OpenQuote (numberedLines "a;\n--title: 'x' (\n\"y\", \"z".toList),
        e.line ≤ o.line) ∧
      ∀ settings base,
        Document.parse settings base "a;\n--title: 'x' (\n\"y\", \"z".toList =
          .error ⟨.unterminatedString, 2, "--title: 'x' ( \"y\", \"z".toList⟩ := by
  have hscan : scan "a;\n--title: 'x' (\n\"y\", \"z".toList =
      .error ⟨2, "--title: 'x' ( \"y\", \"z".toList⟩ := by
    cbv
  obtain ⟨-, -, hlines, hparse⟩ := line_of_unterminated hscan
  exact ⟨_, hscan, rfl, fun o ↦ (hlines o).1, hparse⟩

/-- The error does not always give the line of the quote. -/
theorem not_forall_line_of_quote :
    ¬∀ (source : Text) (e : ScanError), scan source = .error e →
      ∀ o : OpenQuote (numberedLines source), e.line = o.line := by
  intro hall
  have hscan : scan "a,\n\"b".toList = .error ⟨1, "a, \"b".toList⟩ := by
    cbv
  let s : Scan := Scan.ofNumbered [(1, "a,".toList)]
  have hopen : s.LeavesOpen '"' ['b'] := ⟨by decide, by decide, by decide, by decide⟩
  have hline := hall _ _ hscan ⟨[(1, "a,".toList)], 2, "\"b".toList, [], by decide, '"', ['b'], s,
    .here _ s, hopen, by simp⟩
  cases hline

end Statement

end StyledMarkup
