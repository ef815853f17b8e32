import StyledMarkup.Proofs.Text
import StyledMarkup.Statement.Scan

/-!
# The shape of scanned statements

Whatever lines are scanned, every statement that comes out is trimmed and not empty. A statement
that begins with a hyphen also ends at its first semicolon, as long as no parenthesis, no single
quote and no double quote other than an empty pair stands before it. So a declaration without a
value never goes on to open a block.
-/

namespace StyledMarkup

namespace Text

theorem isAlphanumeric_of_isBlank {c : Char} (h : isBlank c = true) : isAlphanumeric c = false := by
  have hascii : ∀ n ∈ [9, 10, 11, 12, 13, 32], (Char.ofNat n).isAlphanum = false := by decide
  have htable : ∀ n ∈ [0x85, 0xA0, 0x1680, 0x2000, 0x2001, 0x2002, 0x2003, 0x2004, 0x2005, 0x2006,
      0x2007, 0x2008, 0x2009, 0x200A, 0x2028, 0x2029, 0x202F, 0x205F, 0x3000],
      inIntervals basicPlaneAlphanumeric n = false := by
    decide +kernel
  simp only [isBlank, Bool.or_eq_true, Bool.and_eq_true, decide_eq_true_eq, beq_iff_eq] at h
  by_cases hsmall : c.toNat < 128
  · rw [isAlphanumeric_of_ascii hsmall, ← Char.ofNat_toNat c]
    apply hascii
    simp only [List.mem_cons, List.not_mem_nil, or_false]
    omega
  · have hbasic : c.toNat < 0x10000 := by omega
    simp only [isAlphanumeric, if_neg hsmall, if_pos hbasic]
    apply htable
    simp only [List.mem_cons, List.not_mem_nil, or_false]
    omega

end Text

namespace Scan

/-- The quote that is open after these characters, the latest first, where they decide it by
themselves: no parenthesis and no single quote is among them, and a double quote is closed at
once. -/
def openQuote? : Text → Option (Option Char)
  | [] => some none
  | c :: before =>
    match openQuote? before with
    | none => none
    | some none =>
      if c = '"' then
        if before.head?.any Text.isAlphanumeric then none else some (some '"')
      else if c = '(' ∨ c = '\'' then none
      else some none
    | some (some _) => if c = '"' then some none else none

theorem openQuote?_of_cons {c : Char} {before : Text} {q : Option Char}
    (h : openQuote? (c :: before) = some q) :
    openQuote? before = some none ∧
        (c = '"' ∧ before.head?.any Text.isAlphanumeric = false ∧ q = some '"' ∨
          c ≠ '"' ∧ c ≠ '(' ∧ c ≠ '\'' ∧ q = none) ∨
      (∃ open', openQuote? before = some (some open')) ∧ c = '"' ∧ q = none := by
  unfold openQuote? at h
  split at h
  · simp at h
  · grind
  · next open' hbefore => grind

theorem openQuote?_eq_quote {t : Text} {q : Char} (h : openQuote? t = some (some q)) : q = '"' := by
  cases t with
  | nil => simp [openQuote?] at h
  | cons c before =>
    rcases openQuote?_of_cons h with ⟨-, ⟨-, -, hq⟩ | ⟨-, -, -, hq⟩⟩ | ⟨-, -, hq⟩
    · simpa using hq
    · simp at hq
    · simp at hq

/-- Blanks before a text change nothing. -/
theorem openQuote?_append_blanks (t : Text) {blanks : Text}
    (hblanks : ∀ c ∈ blanks, Text.isBlank c = true) : openQuote? (t ++ blanks) = openQuote? t := by
  have hplain : openQuote? blanks = some none ∧ blanks.head?.any Text.isAlphanumeric = false := by
    induction blanks with
    | nil => simp [openQuote?]
    | cons c rest ih =>
      have hc := hblanks c (by simp)
      have hrest := (ih fun d hd ↦ hblanks d (by simp [hd])).1
      have hne : c ≠ '"' ∧ c ≠ '(' ∧ c ≠ '\'' := by
        refine ⟨?_, ?_, ?_⟩ <;> rintro rfl <;> revert hc <;> decide
      refine ⟨by simp [openQuote?, hrest, hne], ?_⟩
      simpa using Text.isAlphanumeric_of_isBlank hc
  induction t with
  | nil => simpa [openQuote?] using hplain.1
  | cons c t ih =>
    have hhead : (t ++ blanks).head?.any Text.isAlphanumeric =
        t.head?.any Text.isAlphanumeric := by
      cases t with
      | nil => simpa using hplain.2
      | cons d t => rfl
    simp only [List.cons_append, openQuote?, ih, hhead]

/-- No semicolon among these characters, the latest first, was one that ends a statement. -/
def Unended (t : Text) : Prop :=
  ∀ after before, t = after ++ ';' :: before → openQuote? before ≠ some none

theorem Unended.cons {t : Text} (h : Unended t) {c : Char}
    (hc : c = ';' → openQuote? t ≠ some none) : Unended (c :: t) := by
  intro after before heq
  cases after with
  | nil =>
    obtain ⟨rfl, rfl⟩ := List.cons.inj heq
    exact hc rfl
  | cons d after =>
    obtain ⟨-, rfl⟩ := List.cons.inj heq
    exact h after before rfl

theorem unended_nil : Unended [] := by
  intro after before heq
  simp at heq

end Scan

/-- What every scanned statement is like. -/
structure Statement.IsShaped (st : Statement) : Prop where
  trimmed : Text.IsTrimmed st.text
  ne_nil : st.text ≠ []
  /-- A declaration ends at a semicolon that only plain characters and empty quotes precede. -/
  ends : st.text.head? = some '-' → ∀ before after, st.text = before ++ ';' :: after →
    Scan.openQuote? before.reverse = some none → after = []

namespace Scan

/-- What holds of a scan at every moment: the finished statements are shaped, and the open quote and
the parentheses are what the pending characters say they are. -/
structure Sound (s : Scan) : Prop where
  finished : ∀ st ∈ s.finished, st.IsShaped
  quote_eq : ∀ q, openQuote? s.pending = some q → s.quote = q ∧ s.depth = 0
  unended : Unended s.pending

theorem sound_empty : ({} : Scan).Sound where
  finished := by simp
  quote_eq := by simp [openQuote?]
  unended := unended_nil

theorem followsWord_eq (s : Scan) : s.followsWord = s.pending.head?.any Text.isAlphanumeric := by
  cases h : s.pending <;> simp [followsWord, h]

/-! ## Ending a statement -/

theorem exists_pending_eq (s : Scan) :
    ∃ before after, s.pending = after ++ s.text.reverse ++ before ∧
      ∀ c ∈ before, Text.isBlank c = true := by
  obtain ⟨before, after, heq, hbefore, -⟩ := Text.exists_trim_eq s.pending.reverse
  refine ⟨before.reverse, after.reverse, ?_, by simpa using hbefore⟩
  simpa [text] using congrArg List.reverse heq

/-- A text ends at none of its semicolons when that holds of the pending characters. -/
theorem Unended.of_text {s : Scan} (h : Unended s.pending) : Unended s.text.reverse := by
  obtain ⟨blanks, after, heq, hblanks⟩ := exists_pending_eq s
  intro late early hsplit hquote
  refine h (after ++ late) (early ++ blanks) ?_ ?_
  · rw [heq, hsplit]
    simp
  · rw [openQuote?_append_blanks early hblanks]
    exact hquote

theorem isShaped_of_unended {t : Text} {line : Nat} (htrim : Text.IsTrimmed t) (hne : t ≠ [])
    (h : Unended t.reverse) : Statement.IsShaped ⟨t, line⟩ := by
  refine ⟨htrim, hne, ?_⟩
  intro _ before after heq hquote
  have hrev : t.reverse = after.reverse ++ ';' :: before.reverse := by
    rw [show t = before ++ ';' :: after from heq]
    simp
  exact absurd hquote (h _ _ hrev)

theorem isShaped_of_mem_flush {s : Scan} (h : ∀ st ∈ s.finished, st.IsShaped)
    (htext : s.text ≠ [] → Statement.IsShaped ⟨s.text, s.startLine⟩) :
    ∀ st ∈ s.flush.finished, st.IsShaped := by
  unfold Scan.flush
  split
  · exact h
  · next hne =>
    intro st hst
    rcases List.mem_cons.mp hst with rfl | hst
    · exact htext fun hnil ↦ hne (Or.inl hnil)
    · exact h st hst

theorem flush_clean (s : Scan) :
    s.flush.pending = [] ∧ s.flush.quote = s.quote ∧ s.flush.depth = s.depth := by
  unfold Scan.flush
  split <;> exact ⟨rfl, rfl, rfl⟩

/-- A statement can only end where no quote and no parenthesis is open. -/
theorem Sound.flush {s : Scan} (h : ∀ st ∈ s.finished, st.IsShaped) (hquote : s.quote = none)
    (hdepth : s.depth = 0) (htext : s.text ≠ [] → Statement.IsShaped ⟨s.text, s.startLine⟩) :
    s.flush.Sound := by
  obtain ⟨hpending, hquote', hdepth'⟩ := flush_clean s
  refine ⟨isShaped_of_mem_flush h htext, ?_, hpending ▸ unended_nil⟩
  simp [hpending, hquote', hdepth', openQuote?, hquote, hdepth]

theorem Sound.flush_of_unended {s : Scan} (h : ∀ st ∈ s.finished, st.IsShaped)
    (hquote : s.quote = none) (hdepth : s.depth = 0) (hunended : Unended s.pending) :
    s.flush.Sound :=
  Sound.flush h hquote hdepth fun hne ↦
    isShaped_of_unended (Text.isTrimmed_trim _) hne hunended.of_text

/-- The text of a statement that a semicolon ends has no end before it. -/
theorem isShaped_of_semicolon {t : Text} {line : Nat} (h : Unended t) :
    Statement.IsShaped ⟨Text.trim (t.reverse ++ [';']), line⟩ := by
  have hblank : Text.isBlank ';' = false := by decide
  have hunended : Unended (Text.trimStart t.reverse).reverse := by
    obtain ⟨blanks, heq, hblanks⟩ := Text.exists_trimStart_eq t.reverse
    have hrev : t = (Text.trimStart t.reverse).reverse ++ blanks.reverse := by
      simpa using congrArg List.reverse heq
    intro late early hsplit hquote
    refine h late (early ++ blanks.reverse) ?_ ?_
    · rw [hrev, hsplit]
      simp
    · rw [openQuote?_append_blanks early (by simpa using hblanks)]
      exact hquote
  refine ⟨Text.isTrimmed_trim _, ?_, ?_⟩
  · simp [Text.trim_append_singleton _ hblank]
  · intro _ before after heq hquote
    rw [show (⟨Text.trim (t.reverse ++ [';']), line⟩ : Statement).text =
      Text.trimStart t.reverse ++ [';'] from Text.trim_append_singleton _ hblank] at heq
    rcases List.eq_nil_or_concat after with hnil | ⟨init, c, rfl⟩
    · exact hnil
    · rw [List.concat_eq_append, ← List.cons_append, ← List.append_assoc] at heq
      have hinit := (List.append_inj' heq rfl).1
      refine absurd hquote (hunended init.reverse before.reverse ?_)
      simp [hinit]

theorem Sound.flush_push_semicolon {s : Scan} (h : s.Sound) (hquote : s.quote = none)
    (hdepth : s.depth = 0) (line : Nat) : (s.push line ';').flush.Sound := by
  refine Sound.flush (s := s.push line ';') h.finished hquote hdepth fun _ ↦ ?_
  have htext : (s.push line ';').text = Text.trim (s.pending.reverse ++ [';']) := by
    simp [text, push]
  rw [htext]
  exact isShaped_of_semicolon h.unended

/-- A brace that stands alone may join a statement, which was not ended by a semicolon. -/
theorem isShaped_join {st : Statement} (h : st.IsShaped) (hjoin : takesBrace st = true) :
    Statement.IsShaped ⟨st.text ++ [' ', '{'], st.line⟩ := by
  have hsemicolon : Text.endsWith st.text ';' = false := by
    simp only [takesBrace, Bool.and_eq_true, Bool.not_eq_true'] at hjoin
    exact hjoin.1.1.2
  have hhead : (st.text ++ [' ', '{']).head? = st.text.head? := by
    cases htext : st.text with
    | nil => exact absurd htext h.ne_nil
    | cons c t => rfl
  refine ⟨⟨?_, ?_⟩, by simp, ?_⟩
  · intro c hc
    exact h.trimmed.1 c (hhead ▸ hc)
  · intro c hc
    have hbrace : c = '{' := by simpa using hc.symm
    rw [hbrace]
    decide
  · intro hhyphen before after heq hquote
    rcases List.append_eq_append_iff.mp
        (show st.text ++ [' ', '{'] = before ++ ';' :: after from heq)
      with ⟨mid, hbefore, hmid⟩ | ⟨mid, hbefore, hmid⟩
    · -- the semicolon would have to be one of the two added characters
      rcases mid with _ | ⟨c, _ | ⟨d, _ | ⟨e, mid⟩⟩⟩ <;> simp at hmid
    · cases mid with
      | nil => simp at hmid
      | cons c mid =>
        obtain ⟨rfl, hafter⟩ := List.cons.inj hmid
        have hend := h.ends (hhead ▸ hhyphen) before mid hbefore hquote
        rw [hend] at hbefore
        exact absurd (Text.endsWith_iff.mpr ⟨before, hbefore⟩) (by simp [hsemicolon])

theorem Sound.flushOpener {s : Scan} (h : s.Sound) (hquote : s.quote = none)
    (hdepth : s.depth = 0) : s.flushOpener.Sound := by
  unfold Scan.flushOpener
  split
  · exact Sound.flush_of_unended h.finished hquote hdepth h.unended
  · next previous earlier hfinished =>
    split
    · next hjoin =>
      refine ⟨?_, by simp [openQuote?, hquote, hdepth], unended_nil⟩
      intro st hst
      rcases List.mem_cons.mp hst with rfl | hst
      · exact isShaped_join (h.finished previous (by simp [hfinished])) hjoin.2
      · exact h.finished st (by simp [hfinished, hst])
    · exact Sound.flush_of_unended h.finished hquote hdepth h.unended

/-! ## Reading characters -/

theorem Sound.push {s : Scan} (h : s.Sound) (line : Nat) (c : Char) (quote : Option Char)
    (depth : Nat)
    (hquote : ∀ q, openQuote? (c :: s.pending) = some q → quote = q ∧ depth = 0)
    (hend : c = ';' → openQuote? s.pending ≠ some none) :
    Sound { s.push line c with quote, depth } :=
  ⟨h.finished, hquote, h.unended.cons hend⟩

/-- Inside a quote no statement ends, and only the quote itself may be closed at once. -/
theorem Sound.push_quoted {s : Scan} (h : s.Sound) {q : Char} (hq : s.quote = some q) (line : Nat)
    {c : Char} (hc : c ≠ q) : (s.push line c).Sound := by
  refine h.push line c s.quote s.depth ?_ ?_
  · intro q' hopen
    rcases openQuote?_of_cons hopen with ⟨hplain, -⟩ | ⟨⟨open', hopen'⟩, rfl, -⟩
    · have hnone := (h.quote_eq none hplain).1
      simp [hq] at hnone
    · have hsome := (h.quote_eq _ hopen').1
      rw [hq, openQuote?_eq_quote hopen'] at hsome
      exact absurd (Option.some.inj hsome).symm hc
  · rintro - hplain
    have hnone := (h.quote_eq none hplain).1
    simp [hq] at hnone

theorem Sound.push_closing {s : Scan} (h : s.Sound) {q : Char} (hq : s.quote = some q)
    (line : Nat) : Sound { s.push line q with quote := none } := by
  refine h.push line q none s.depth ?_ ?_
  · intro q' hopen
    rcases openQuote?_of_cons hopen with ⟨hplain, -⟩ | ⟨⟨open', hopen'⟩, -, rfl⟩
    · have hnone := (h.quote_eq none hplain).1
      simp [hq] at hnone
    · exact ⟨rfl, (h.quote_eq _ hopen').2⟩
  · rintro - hplain
    have hnone := (h.quote_eq none hplain).1
    simp [hq] at hnone

/-- A backslash inside a quote leaves texts that decide nothing by themselves. -/
theorem openQuote?_backslash {s : Scan} (h : s.Sound) {q : Char} (hq : s.quote = some q) :
    openQuote? ('\\' :: s.pending) = none := by
  rw [Option.eq_none_iff_forall_ne_some]
  intro q' hopen
  rcases openQuote?_of_cons hopen with ⟨hplain, -⟩ | ⟨-, hc, -⟩
  · have hquote := (h.quote_eq none hplain).1
    simp [hq] at hquote
  · exact absurd hc (by decide)

theorem Sound.push_backslash {s : Scan} (h : s.Sound) {q : Char} (hq : s.quote = some q)
    (line : Nat) : (s.push line '\\').Sound := by
  refine h.push line '\\' s.quote s.depth ?_ (fun hc ↦ absurd hc (by decide))
  simp [openQuote?_backslash h hq]

theorem Sound.push_escaped {s : Scan} (h : s.Sound) {q : Char} (hq : s.quote = some q) (line : Nat)
    (escaped : Char) : ((s.push line '\\').push line escaped).Sound := by
  have hnone : openQuote? (s.push line '\\').pending = none := openQuote?_backslash h hq
  refine (h.push_backslash hq line).push line escaped s.quote s.depth ?_ fun _ ↦ by simp [hnone]
  intro q' hopen
  rcases openQuote?_of_cons hopen with ⟨hplain, -⟩ | ⟨⟨open', hplain⟩, -⟩ <;>
    simp [hnone] at hplain

/-- The rules by which a character outside quotes is read. -/
inductive Reads (s : Scan) (line : Nat) (c : Char) (rest : Text) : Scan → Prop
  | quote (hopens : s.opensQuote c rest = true) :
    Reads s line c rest { s.push line c with quote := some c }
  | opening (hc : c = '(') : Reads s line c rest { s.push line c with depth := s.depth + 1 }
  | closing (hc : c = ')') : Reads s line c rest { s.push line c with depth := s.depth - 1 }
  | plain (hopens : s.opensQuote c rest = false) (hparen : c ≠ '(' ∧ c ≠ ')')
    (hend : s.depth = 0 → c ≠ ';' ∧ c ≠ '{' ∧ c ≠ '}') : Reads s line c rest (s.push line c)
  | semicolon (hdepth : s.depth = 0) (hc : c = ';') : Reads s line c rest (s.push line c).flush
  | opener (hdepth : s.depth = 0) (hc : c = '{') :
    Reads s line c rest (s.push line c).flushOpener
  | closer (hdepth : s.depth = 0) (hc : c = '}') :
    Reads s line c rest (s.flush.push line c).flush

theorem reads (s : Scan) (line : Nat) (c : Char) (rest : Text) :
    Reads s line c rest (s.readPlain line c rest) := by
  unfold readPlain
  split_ifs with hopens hopening hclosing hdepth hsemicolon hopener hcloser
  · exact .quote hopens
  · exact .opening hopening
  · exact .closing hclosing
  · exact .plain (Bool.of_not_eq_true hopens) ⟨hopening, hclosing⟩ fun hzero ↦ absurd hzero hdepth
  · exact .semicolon (Decidable.not_not.mp hdepth) hsemicolon
  · exact .opener (Decidable.not_not.mp hdepth) hopener
  · exact .closer (Decidable.not_not.mp hdepth) hcloser
  · exact .plain (Bool.of_not_eq_true hopens) ⟨hopening, hclosing⟩
      fun _ ↦ ⟨hsemicolon, hopener, hcloser⟩

/-- Outside quotes, characters that say what is open say that nothing is. -/
theorem Sound.openQuote?_cons {s : Scan} (h : s.Sound) (hquote : s.quote = none) {c : Char}
    {q : Option Char} (hopen : openQuote? (c :: s.pending) = some q) :
    openQuote? s.pending = some none ∧ s.depth = 0 ∧
      (c = '"' ∧ s.followsWord = false ∧ q = some '"' ∨
        c ≠ '"' ∧ c ≠ '(' ∧ c ≠ '\'' ∧ q = none) := by
  rcases openQuote?_of_cons hopen with ⟨hplain, hcases⟩ | ⟨⟨open', hopen'⟩, -⟩
  · refine ⟨hplain, (h.quote_eq none hplain).2, ?_⟩
    rwa [followsWord_eq]
  · have hsome := (h.quote_eq _ hopen').1
    simp [hquote] at hsome

theorem Sound.push_plain {s : Scan} (h : s.Sound) (hquote : s.quote = none) (line : Nat)
    {c : Char} {rest : Text} (hopens : s.opensQuote c rest = false)
    (hend : s.depth = 0 → c ≠ ';') : (s.push line c).Sound := by
  refine h.push line c s.quote s.depth ?_ ?_
  · intro q hq
    obtain ⟨-, hdepth, ⟨rfl, hword, -⟩ | ⟨-, -, -, rfl⟩⟩ := h.openQuote?_cons hquote hq
    · simp [opensQuote, hword] at hopens
    · exact ⟨hquote, hdepth⟩
  · rintro hc hnone
    exact hend (h.quote_eq none hnone).2 hc

theorem Sound.readPlain {s : Scan} (h : s.Sound) (hquote : s.quote = none) (line : Nat) (c : Char)
    (rest : Text) : (s.readPlain line c rest).Sound := by
  have hread := reads s line c rest
  generalize s.readPlain line c rest = s' at hread ⊢
  cases hread with
  | quote hopens =>
    have hc : c = '"' ∨ c = '\'' := by
      simp only [opensQuote, Bool.and_eq_true, Bool.or_eq_true, beq_iff_eq] at hopens
      exact hopens.2.imp_right And.left
    refine h.push line c (some c) s.depth ?_ ?_
    · intro q hq
      obtain ⟨-, hdepth, ⟨rfl, -, rfl⟩ | ⟨hne, -, hne', -⟩⟩ := h.openQuote?_cons hquote hq
      · exact ⟨rfl, hdepth⟩
      · rcases hc with rfl | rfl <;> contradiction
    · rintro rfl
      exact absurd hc (by decide)
  | opening hc =>
    refine h.push line c s.quote (s.depth + 1) ?_ (by simp [hc])
    intro q hq
    obtain ⟨-, -, ⟨hc', -⟩ | ⟨-, hc', -⟩⟩ := h.openQuote?_cons hquote hq
    · exact absurd (hc.symm.trans hc') (by decide)
    · exact absurd hc hc'
  | closing hc =>
    refine h.push line c s.quote (s.depth - 1) ?_ (by simp [hc])
    intro q hq
    obtain ⟨-, hdepth, ⟨hc', -⟩ | ⟨-, -, -, rfl⟩⟩ := h.openQuote?_cons hquote hq
    · exact absurd (hc.symm.trans hc') (by decide)
    · exact ⟨hquote, by omega⟩
  | plain hopens hparen hend => exact h.push_plain hquote line hopens fun hdepth ↦ (hend hdepth).1
  | semicolon hdepth hc =>
    rw [hc]
    exact h.flush_push_semicolon hquote hdepth line
  | opener hdepth hc =>
    subst hc
    have hopens : s.opensQuote '{' rest = false := by simp [opensQuote]
    exact (h.push_plain hquote line hopens (by simp)).flushOpener hquote hdepth
  | closer hdepth hc =>
    subst hc
    have hflush := Sound.flush_of_unended h.finished hquote hdepth h.unended
    obtain ⟨-, hquote', hdepth'⟩ := flush_clean s
    exact Sound.flush_of_unended (s := s.flush.push line '}') hflush.finished
      (hquote'.trans hquote) (hdepth'.trans hdepth) (hflush.unended.cons (by simp))

theorem Sound.comment {s : Scan} (h : s.Sound) (hquote : s.quote = none) (line : Nat) {c : Char}
    {rest : Text} (hstart : s.startsComment c rest = true) :
    (s.comment line (c :: rest)).Sound := by
  simp only [startsComment, Statement.commentMarker, Bool.and_eq_true] at hstart
  obtain ⟨hblank, hmarker⟩ := hstart
  obtain ⟨tail, htail⟩ := List.isPrefixOf_iff_prefix.mp hmarker
  have hc : c = '/' := (List.cons.inj htail).1.symm
  have hdepth : s.depth = 0 := by
    have hblanks : ∀ d ∈ s.pending, Text.isBlank d = true := by
      simpa [Text.allBlank] using hblank
    have hplain := openQuote?_append_blanks [] hblanks
    exact (h.quote_eq none (by simpa [openQuote?] using hplain)).2
  refine ⟨?_, by simp [Scan.comment, openQuote?, hquote, hdepth], unended_nil⟩
  intro st hst
  rcases List.mem_cons.mp hst with rfl | hst
  · have hhead : (Text.trim (c :: rest)).head? = some '/' := by
      rw [hc]
      exact Text.head?_trim_cons (by decide) rest
    refine ⟨Text.isTrimmed_trim _, ?_, ?_⟩
    · intro hnil
      have hnil : Text.trim (c :: rest) = [] := hnil
      simp [hnil] at hhead
    · intro hhyphen
      exact absurd (hhead.symm.trans hhyphen) (by decide)
  · exact h.finished st hst

/-! ## Reading lines -/

theorem Sound.readChars (line : Nat) (t : Text) {s : Scan} (h : s.Sound) :
    (readChars line t s).Sound := by
  fun_induction Scan.readChars line t s with
  | case1 s => exact h
  | case2 s q hq => exact h.push_backslash hq line
  | case3 s q hq escaped rest ih => exact ih (h.push_escaped hq line escaped)
  | case4 rest s q hq hbackslash ih => exact ih (h.push_closing hq line)
  | case5 c rest s q hq hbackslash hc ih => exact ih (h.push_quoted hq line hc)
  | case6 c rest s hquote hstart => exact h.comment hquote line hstart
  | case7 c rest s hquote hstart ih => exact ih (h.readPlain hquote line c rest)

theorem Sound.endLine {s : Scan} (h : s.Sound) : s.endLine.Sound := by
  unfold Scan.endLine
  split
  · split
    · exact h
    · refine ⟨h.finished, ?_, h.unended.cons fun hc ↦ absurd hc (by decide)⟩
      intro q hopen
      rcases openQuote?_of_cons hopen with ⟨hplain, ⟨hc, -⟩ | ⟨-, -, -, rfl⟩⟩ | ⟨-, hc, -⟩
      · exact absurd hc (by decide)
      · exact h.quote_eq none hplain
      · exact absurd hc (by decide)
  · next hcontinued =>
    simp only [isContinued, Bool.or_eq_true, not_or, Bool.not_eq_true, Option.isSome_eq_false_iff,
      Option.isNone_iff_eq_none, bne_eq_false_iff_eq] at hcontinued
    exact Sound.flush_of_unended h.finished hcontinued.1.1.1 hcontinued.1.1.2 h.unended

theorem Sound.readLine {s : Scan} (h : s.Sound) (line : Nat) (t : Text) :
    (s.readLine line t).Sound :=
  (Sound.readChars line (Text.trim t) h).endLine

end Scan

namespace Statement

open Scan

/-- Every scanned statement is shaped. -/
theorem isShaped_of_scanLines {lines : List (Nat × Text)} {statements : List Statement}
    (h : scanLines lines = .ok statements) : ∀ s ∈ statements, s.IsShaped := by
  have hread : ∀ (lines : List (Nat × Text)) (s : Scan), s.Sound →
      (lines.foldl (fun s line ↦ s.readLine line.1 line.2) s).Sound := by
    intro lines
    induction lines with
    | nil => exact fun s hs ↦ hs
    | cons line rest ih => exact fun s hs ↦ ih _ (hs.readLine line.1 line.2)
  have hsound := hread lines {} sound_empty
  unfold scanLines Scan.finish at h
  split at h
  · cases h
  · cases h
    intro s hs
    refine isShaped_of_mem_flush hsound.finished (fun hne ↦ ?_) s (List.mem_reverse.mp hs)
    exact isShaped_of_unended (Text.isTrimmed_trim _) hne hsound.unended.of_text

theorem isShaped_of_scan {source : Text} {statements : List Statement}
    (h : scan source = .ok statements) : ∀ s ∈ statements, s.IsShaped :=
  isShaped_of_scanLines h

end Statement

end StyledMarkup
