import StyledMarkup.Proofs.Classification
import StyledMarkup.Proofs.Statement.Tidy
import StyledMarkup.Proofs.Vocabulary

/-!
# Two readers of one terminator

The scanner finds the semicolon that ends a declaration, and the reader of its value looks for that
semicolon again. They do not open strings in the same way: to the scanner a double quote right after
a letter or digit is an apostrophe, to the reader of values every double quote outside a string
opens one. In a text where no quote that opens a string stands after a letter or digit the two are
at the same place all the time, so both end the value at the same semicolon.
-/

namespace StyledMarkup

namespace Value

/-- No double quote that opens a string stands right after a letter or digit. Reading starts at the
given position, and `word` says whether a letter or digit came just before. -/
def isApart : Position → (word : Bool) → Text → Bool
  | _, _, [] => true
  | p, word, c :: t =>
    !(p == .plain && c == '"' && word) && isApart (p.next c) (Text.isAlphanumeric c) t

/-- What the scanner leaves of a text without apostrophes: when no quote follows a word, every
string is closed. -/
def Balances (t : Text) : Prop :=
  '\'' ∉ t → isApart .plain false t = true → t.foldl Position.next .plain = .plain

section Apart

variable {p : Position} {word : Bool} {t u : Text}

theorem isApart_concat (c : Char) :
    isApart p word (t ++ [c]) = (isApart p word t &&
      !(t.foldl Position.next p == .plain && c == '"' &&
        (t.getLast?.map Text.isAlphanumeric).getD word)) := by
  induction t generalizing p word with
  | nil => simp [isApart]
  | cons d t ih =>
    have hlast : ((d :: t).getLast?.map Text.isAlphanumeric).getD word =
        (t.getLast?.map Text.isAlphanumeric).getD (Text.isAlphanumeric d) := by
      cases hlast : t.getLast? <;> simp [List.getLast?_cons, hlast]
    simp only [List.cons_append, isApart, ih, hlast, List.foldl_cons, Bool.and_assoc]

/-- Characters other than a double quote do not matter at the end of a text. -/
theorem isApart_append_of_not_mem (hu : '"' ∉ u) :
    isApart p word (t ++ u) = isApart p word t := by
  induction u using List.reverseRecOn with
  | nil => rw [List.append_nil]
  | append_singleton u c ih =>
    simp only [List.mem_append, List.mem_singleton, not_or] at hu
    have hc : (c == '"') = false := by simpa using Ne.symm hu.2
    rw [← List.append_assoc, isApart_concat, ih hu.1, hc]
    simp

theorem isApart_blanks_append (hu : ∀ c ∈ u, Text.isBlank c = true) :
    isApart .plain false (u ++ t) = isApart .plain false t := by
  induction u with
  | nil => rfl
  | cons c u ih =>
    rw [List.forall_mem_cons] at hu
    have hc := (Classification.not_special_of_isBlank hu.1).1
    rw [List.cons_append, isApart, (Position.next_eq_plain_iff hc).mpr rfl,
      Text.isAlphanumeric_of_isBlank hu.1, ih hu.2]
    simp

end Apart

theorem Balances.append {t u : Text} (h : Balances t) (hu : '"' ∉ u) : Balances (t ++ u) := by
  intro hapostrophe hapart
  rw [isApart_append_of_not_mem hu] at hapart
  rw [List.foldl_append, foldl_next_eq_plain_iff hu]
  exact h (fun hmem ↦ hapostrophe (List.mem_append_left u hmem)) hapart

theorem Balances.trim {t : Text} (h : Balances t) : Balances (Text.trim t) := by
  obtain ⟨left, right, heq, hleft, hright⟩ := Text.exists_trim_eq t
  have hleftQuote : '"' ∉ left := Text.not_mem_of_blanks hleft (by decide)
  have hrightQuote : '"' ∉ right := Text.not_mem_of_blanks hright (by decide)
  intro hapostrophe hapart
  have hplain : t.foldl Position.next .plain = .plain := by
    apply h
    · rw [heq]
      simp only [List.mem_append, not_or]
      exact ⟨⟨Text.not_mem_of_blanks hleft (by decide), hapostrophe⟩,
        Text.not_mem_of_blanks hright (by decide)⟩
    · rw [heq, isApart_append_of_not_mem hrightQuote, isApart_blanks_append hleft, hapart]
  rwa [heq, List.foldl_append, foldl_next_eq_plain_iff hrightQuote, List.foldl_append,
    (foldl_next_eq_plain_iff hleftQuote).mpr rfl] at hplain

end Value

namespace Scan

open Value (Position Balances isApart)

/-! ## The two readers at each character -/

/-- Where a reader of values stands if it opens and closes strings as the scan does. -/
def position (s : Scan) (escaped : Bool) : Position :=
  match s.quote with
  | none => .plain
  | some _ => if escaped then .escaped else .quoted

theorem position_of_quote {s : Scan} {q : Char} (h : s.quote = some q) (escaped : Bool) :
    s.position escaped = if escaped then .escaped else .quoted := by
  rw [position, h]

theorem position_of_plain {s : Scan} (h : s.quote = none) (escaped : Bool) :
    s.position escaped = .plain := by
  rw [position, h]

/-- On the statement being read the two readers stand at the same place, as long as no apostrophe
has come and no quote follows a word. The finished statements are comments or leave no string
open. -/
structure Agrees (s : Scan) (escaped : Bool) : Prop where
  quote : ∀ q, s.quote = some q → q = '"' ∨ '\'' ∈ s.pending
  reading : '\'' ∉ s.pending → isApart .plain false s.pending.reverse = true →
    s.pending.reverse.foldl Position.next .plain = s.position escaped
  finished : ∀ st ∈ s.finished, st.isComment = true ∨ Balances st.text

section Agrees

variable {s s' : Scan} {escaped escaped' : Bool} {c : Char} (line : Nat)

theorem agrees_of_clean (hpending : s.pending = []) (hquote : s.quote = none)
    (hfinished : ∀ st ∈ s.finished, st.isComment = true ∨ Balances st.text) : Agrees s false where
  quote q hq := by simp [hquote] at hq
  reading _ _ := by rw [hpending, position_of_plain hquote]; rfl
  finished := hfinished

theorem Agrees.next (h : Agrees s escaped) (hfinished : s'.finished = s.finished)
    (hpending : s'.pending = c :: s.pending)
    (hquote : ∀ q, s'.quote = some q → q = '"' ∨ '\'' ∈ s'.pending)
    (hstep : c ≠ '\'' → '\'' ∉ s.pending → (s.quote = none → c = '"' → s.followsWord = false) →
      (s.position escaped).next c = s'.position escaped') : Agrees s' escaped' := by
  refine ⟨hquote, fun hapostrophe hapart ↦ ?_, hfinished ▸ h.finished⟩
  rw [hpending, List.mem_cons, not_or] at hapostrophe
  rw [hpending, List.reverse_cons, Value.isApart_concat, Bool.and_eq_true] at hapart
  have hplace := h.reading hapostrophe.2 hapart.1
  rw [hpending, List.reverse_cons, List.foldl_append, hplace]
  refine hstep (Ne.symm hapostrophe.1) hapostrophe.2 fun hnone hc ↦ ?_
  rw [followsWord_eq]
  cases hhead : s.pending.head? with
  | none => rfl
  | some d => simpa [hplace, position_of_plain hnone, hc, hhead] using hapart.2

/-- Outside strings, a character that neither opens a string nor closes one. -/
theorem Agrees.outside (h : Agrees s false) (hquote : s.quote = none)
    (hopens : c = '"' → s.followsWord = true) (hfinished : s'.finished = s.finished)
    (hpending : s'.pending = c :: s.pending) (hquote' : s'.quote = none) : Agrees s' false := by
  refine h.next hfinished hpending (by simp [hquote']) fun _ _ hword ↦ ?_
  rw [position_of_plain hquote, position_of_plain hquote', Position.next_eq_plain_iff]
  rintro rfl
  have hfollows := hword hquote rfl
  simp [hopens rfl] at hfollows

theorem Agrees.balances_text (h : Agrees s escaped) (hquote : s.quote = none) :
    Balances s.text := by
  apply Balances.trim
  intro hapostrophe hapart
  rw [h.reading (by simpa using hapostrophe) hapart, position_of_plain hquote]

theorem Agrees.flush (h : Agrees s escaped) (hquote : s.quote = none) : Agrees s.flush false := by
  obtain ⟨hpending, hquote', -⟩ := flush_clean s
  refine agrees_of_clean hpending (hquote'.trans hquote) ?_
  unfold Scan.flush
  split
  · exact h.finished
  · exact List.forall_mem_cons.mpr ⟨Or.inr (h.balances_text hquote), h.finished⟩

theorem Agrees.flushOpener (h : Agrees s escaped) (hquote : s.quote = none) :
    Agrees s.flushOpener false := by
  unfold Scan.flushOpener
  split
  · exact h.flush hquote
  · next previous earlier hfinished =>
    split
    · next hjoin =>
      have hold := h.finished
      rw [hfinished, List.forall_mem_cons] at hold
      have hprevious : previous.isComment = false := by
        have htakes := hjoin.2
        simp only [takesBrace, Bool.and_eq_true, Bool.not_eq_true'] at htakes
        exact htakes.1.1.1
      have hbalances : Balances previous.text := by simpa [hprevious] using hold.1
      exact agrees_of_clean rfl hquote
        (List.forall_mem_cons.mpr ⟨Or.inr (hbalances.append (by decide)), hold.2⟩)
    · exact h.flush hquote

theorem Agrees.readPlain (h : Agrees s false) (hquote : s.quote = none) (c : Char) (rest : Text) :
    Agrees (s.readPlain line c rest) false := by
  have hpush : c ≠ '"' → Agrees (s.push line c) false :=
    fun hc ↦ h.outside hquote (fun heq ↦ absurd heq hc) rfl rfl hquote
  have hread := reads s line c rest
  generalize s.readPlain line c rest = s' at hread
  cases hread with
  | quote hopens =>
    simp only [opensQuote, Bool.and_eq_true, Bool.not_eq_true', Bool.or_eq_true, beq_iff_eq]
      at hopens
    refine h.next rfl rfl ?_ fun hc _ _ ↦ ?_
    · rintro q ⟨⟩
      exact hopens.2.imp_right fun hc ↦ by simp [push, hc.1]
    · obtain rfl : c = '"' := by simpa [hc] using hopens.2
      rw [position_of_plain hquote, position_of_quote rfl]
      rfl
  | opening hc => exact h.outside hquote (fun heq ↦ by simp [hc] at heq) rfl rfl hquote
  | closing hc => exact h.outside hquote (fun heq ↦ by simp [hc] at heq) rfl rfl hquote
  | plain hopens =>
    refine h.outside hquote (fun hc ↦ ?_) rfl rfl hquote
    simpa [opensQuote, hc] using hopens
  | semicolon hdepth hc => exact (hpush (by rw [hc]; decide)).flush hquote
  | opener hdepth hc => exact (hpush (by rw [hc]; decide)).flushOpener hquote
  | closer hdepth hc =>
    have hquote' : s.flush.quote = none := (flush_clean s).2.1.trans hquote
    have hbrace : Agrees (s.flush.push line c) false :=
      (h.flush hquote).outside hquote' (fun heq ↦ by simp [hc] at heq) rfl rfl hquote'
    exact hbrace.flush hquote'

theorem Agrees.comment (h : Agrees s false) {rest : Text} (hquote : s.quote = none)
    (hstart : s.startsComment c rest = true) : Agrees (s.comment line (c :: rest)) false := by
  rw [startsComment, Bool.and_eq_true] at hstart
  refine agrees_of_clean rfl hquote (List.forall_mem_cons.mpr ⟨Or.inl ?_, h.finished⟩)
  rw [Statement.isComment, List.isPrefixOf_iff_prefix]
  exact Text.isPrefix_trim (by decide) (by decide) (by decide)
    (List.isPrefixOf_iff_prefix.mp hstart.2)

/-! ## Inside strings -/

section Quoted

variable {q : Char} (hq : s.quote = some q)
include hq

theorem Agrees.inside (h : Agrees s escaped) (hfinished : s'.finished = s.finished)
    (hpending : s'.pending = c :: s.pending) (hquote : s'.quote = some q)
    (hstep : q = '"' → Position.next (if escaped then .escaped else .quoted) c =
      if escaped' then .escaped else .quoted) : Agrees s' escaped' := by
  refine h.next hfinished hpending (fun r hr ↦ ?_) fun _ hapostrophe _ ↦ ?_
  · obtain rfl : q = r := Option.some.inj (hquote.symm.trans hr)
    exact (h.quote q hq).imp_right fun hmem ↦ by rw [hpending]; exact List.mem_cons_of_mem c hmem
  · rw [position_of_quote hq, position_of_quote hquote]
    exact hstep ((h.quote q hq).resolve_right hapostrophe)

theorem Agrees.backslash (h : Agrees s false) : Agrees (s.push line '\\') true :=
  h.inside hq rfl rfl hq fun _ ↦ rfl

theorem Agrees.taken (h : Agrees s true) (c : Char) : Agrees (s.push line c) false :=
  h.inside hq rfl rfl hq fun _ ↦ rfl

theorem Agrees.closing (h : Agrees s false) :
    Agrees { s.push line q with quote := none } false := by
  refine h.next rfl rfl (by simp) fun hc hapostrophe _ ↦ ?_
  obtain rfl : q = '"' := (h.quote q hq).resolve_right hapostrophe
  rw [position_of_quote hq]
  rfl

end Quoted

theorem Agrees.readChars (t : Text) (h : Agrees s false) :
    ∃ escaped, Agrees (readChars line t s) escaped := by
  fun_induction Scan.readChars line t s with
  | case1 s => exact ⟨false, h⟩
  | case2 s q hq => exact ⟨true, h.backslash line hq⟩
  | case3 s q hq taken rest ih =>
    exact ih (Agrees.taken (s := s.push line '\\') line hq (h.backslash line hq) taken)
  | case4 rest s q hq hbackslash ih => exact ih (h.closing line hq)
  | case5 c rest s q hq hbackslash hc ih =>
    refine ih (h.inside hq rfl rfl hq ?_)
    rintro rfl
    exact Position.next_quoted hc hbackslash
  | case6 c rest s hquote hstart => exact ⟨false, h.comment line hquote hstart⟩
  | case7 c rest s hquote hstart ih => exact ih (h.readPlain line hquote c rest)

/-! ## Lines -/

/-- A backslash at the end of a line takes the joining space along. -/
theorem Agrees.join (h : Agrees s escaped) :
    Agrees { s with pending := ' ' :: s.pending } false := by
  by_cases hquote : s.quote = none
  · refine h.next rfl rfl (by simp [hquote]) fun _ _ _ ↦ ?_
    rw [position_of_plain hquote]
    exact (position_of_plain hquote false).symm
  · obtain ⟨q, hq⟩ := Option.ne_none_iff_exists'.mp hquote
    refine h.inside hq rfl rfl hq fun _ ↦ ?_
    cases escaped <;> rfl

theorem Agrees.endLine (h : Agrees s escaped) : Agrees s.endLine false := by
  unfold Scan.endLine
  split
  · split
    · next hpending =>
      have hquote : s.quote = none := by
        have hplace := h.reading (by simp [hpending]) (by simp [hpending, isApart])
        cases hquote : s.quote with
        | none => rfl
        | some q => cases escaped <;> simp [hpending, position_of_quote hquote] at hplace
      exact agrees_of_clean hpending hquote h.finished
    · exact h.join
  · next hcontinued =>
    simp only [isContinued, Bool.not_eq_true, Bool.or_eq_false_iff, Option.isSome_eq_false_iff,
      Option.isNone_iff_eq_none, and_assoc] at hcontinued
    exact h.flush hcontinued.1

theorem Agrees.foldl_readLine (lines : List (Nat × Text)) (h : Agrees s false) :
    Agrees (lines.foldl (fun s l ↦ s.readLine l.1 l.2) s) false := by
  induction lines generalizing s with
  | nil => exact h
  | cons l lines ih =>
    obtain ⟨escaped, hread⟩ := h.readChars l.1 (Text.trim l.2)
    exact ih hread.endLine

end Agrees

end Scan

/-! ## Declarations -/

namespace Classification

/-- The statement declares text, or an attribute in some scope. -/
def Declares (t : Text) : Prop :=
  isTextMarker t = true ∨ ∃ scope c, attribute? t scope = some c

theorem declares_of_allowed {name : Text} {scope : Scope} (h : allowed name scope = true)
    (value : Text) : Declares ("--".toList ++ name ++ ':' :: value) :=
  Or.inr ⟨scope, _, attribute?_declaration (Vocabulary.isAttributeChar_of_allowed h) h value⟩

/-- In a declaration only the name and blanks stand before the first colon. -/
theorem Declares.exists_colon {t : Text} (h : Declares t) :
    ∃ before rest, t = '-' :: before ++ ':' :: rest ∧ ':' ∉ before ∧ '"' ∉ before := by
  have hblank : ∀ {blanks : Text}, (∀ c ∈ blanks, Text.isBlank c = true) →
      ':' ∉ blanks ∧ '"' ∉ blanks := fun hblanks ↦
    ⟨Text.not_mem_of_blanks hblanks (by decide), Text.not_mem_of_blanks hblanks (by decide)⟩
  rcases h with hmarker | ⟨scope, c, hattr⟩
  · obtain ⟨blanks, rest, rfl, hblanks⟩ := isTextMarker_iff.mp hmarker
    obtain ⟨hcolon, hquote⟩ := hblank hblanks
    refine ⟨"-text".toList ++ blanks, rest, rfl, ?_, ?_⟩
    · simp [hcolon]
    · simp [hquote]
  · obtain ⟨name, blanks, rest, rfl, hname, hblanks, -, -⟩ := attribute?_eq_some hattr
    obtain ⟨hcolon, hquote⟩ := hblank hblanks
    refine ⟨'-' :: name ++ blanks, rest, by simp, ?_, ?_⟩
    · have hmem : ':' ∉ name := fun hmem ↦ absurd (hname _ hmem) (by decide)
      simp [hcolon, hmem]
    · have hmem : '"' ∉ name := fun hmem ↦ absurd (hname _ hmem) (by decide)
      simp [hquote, hmem]

end Classification

namespace Statement

open Value (Position Balances isApart)

theorem balances_of_scanLines {lines : List (Nat × Text)} {statements : List Statement}
    (h : scanLines lines = .ok statements) :
    ∀ s ∈ statements, s.isComment = true ∨ Balances s.text := by
  have hagrees := (Scan.agrees_of_clean (s := {}) rfl rfl (by simp)).foldl_readLine lines
  obtain ⟨hquote, rfl⟩ := flush_of_scanLines h
  simpa using (hagrees.flush hquote).finished

/-- The value of a scanned declaration ends at its last semicolon if the reader of values stands
outside double quotes there or right after one, and in no other case. Where no quote that opens a
string stands after a letter or digit, it always does. -/
theorem extract_of_scan {source : Text} {statements : List Statement}
    (hscan : scan source = .ok statements) {s : Statement} (hs : s ∈ statements)
    (hends : s.text.endsWith ';' = true) (hapostrophe : '\'' ∉ s.text)
    (hdeclares : Classification.Declares s.text) :
    ∃ before value, Text.splitAt? ':' s.text = some (before, value ++ [';']) ∧
      (Value.extract (value ++ [';']) = Text.trim value ↔
        value.foldl Position.next .plain = .plain ∨ Text.endsWith value '"' = true) ∧
      (isApart .plain false s.text = true →
        Value.extract (value ++ [';']) = Text.trim value) := by
  obtain ⟨before, rest, htext, hcolon, hquote⟩ := hdeclares.exists_colon
  obtain ⟨value, rfl⟩ : ∃ value, rest = value ++ [';'] := by
    rw [htext] at hends
    exact Text.exists_concat_of_endsWith hends (by decide)
  refine ⟨'-' :: before, value, ?_, Value.extract_append_semicolon_iff, fun hapart ↦ ?_⟩
  · exact Text.splitAt?_eq_some_iff.mpr ⟨htext, by simp [hcolon]⟩
  · have hcomment : s.isComment = false := by
      rw [isComment, htext]
      rfl
    have hbalances : Balances s.text := by
      simpa [hcomment] using balances_of_scanLines hscan s hs
    have hplain := hbalances hapostrophe hapart
    have hname : ('-' :: before ++ [':']).foldl Position.next .plain = .plain :=
      (Value.foldl_next_eq_plain_iff (by simp [hquote])).mpr rfl
    have hsplit : s.text = '-' :: before ++ [':'] ++ value ++ [';'] := by simp [htext]
    rw [hsplit, List.foldl_append, Value.foldl_next_eq_plain_iff (by decide), List.foldl_append,
      hname] at hplain
    exact Value.extract_append_semicolon_iff.mpr (Or.inl hplain)

theorem extract_of_scan_title :
    ∃ before value, Text.splitAt? ':' "--title: \"a; b\" (c);".toList =
        some (before, value ++ [';']) ∧
      Value.extract (value ++ [';']) = Text.trim value := by
  have hscan : scan "--title: \"a; b\" (c);".toList =
      .ok [⟨"--title: \"a; b\" (c);".toList, 1⟩] := by
    cbv
  have hdeclares : Classification.Declares "--title: \"a; b\" (c);".toList :=
    Classification.declares_of_allowed (Vocabulary.allowed_title .root) " \"a; b\" (c);".toList
  obtain ⟨before, value, hsplit, -, hagree⟩ :=
    extract_of_scan hscan List.mem_cons_self (by decide) (by decide) hdeclares
  exact ⟨before, value, hsplit, hagree (by decide +kernel)⟩

/-- The two readers do not always agree: a statement that ends at its semicolon, outside strings and
parentheses, can have a value that keeps the semicolon. -/
theorem not_forall_extract_of_scan :
    ¬∀ (source : Text) (statements : List Statement) (s : Statement) (before value : Text),
      scan source = .ok statements → s ∈ statements → Scan.Completes false s.text →
      s.text.endsWith ';' = true → '\'' ∉ s.text → Classification.Declares s.text →
      Text.splitAt? ':' s.text = some (before, value ++ [';']) →
      Value.extract (value ++ [';']) = Text.trim value := by
  intro hall
  have hscan : scan "--title: 5\" wide;".toList = .ok [⟨"--title: 5\" wide;".toList, 1⟩] := by
    cbv
  have hcompletes : Scan.Completes false "--title: 5\" wide;".toList :=
    .ended (u := "--title: 5\" wide".toList) (Or.inl rfl) (by decide)
      (m := { word := true }) (by decide +kernel) rfl rfl
  have hdeclares : Classification.Declares "--title: 5\" wide;".toList :=
    Classification.declares_of_allowed (Vocabulary.allowed_title .root) " 5\" wide;".toList
  have hextract := hall _ _ _ "--title".toList " 5\" wide".toList hscan List.mem_cons_self
    hcompletes (by decide) (by decide) hdeclares (by decide)
  revert hextract
  decide +kernel

end Statement

end StyledMarkup
