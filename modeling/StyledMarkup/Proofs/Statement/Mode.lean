import StyledMarkup.Proofs.Statement.Rescan

/-!
# What the scanner remembers inside a statement

Until a statement ends, only four things about the characters read so far decide how the next one is
read: the open quote, a backslash in it that takes the next character along, the open parentheses,
and whether a letter or digit came last. They make up a small automaton. A text that the automaton
reads to its end is pushed character by character wherever it stands, and a text on which it stops
ends a statement there.
-/

namespace StyledMarkup.Scan

structure Mode where
  quote : Option Char := none
  escaped : Bool := false
  depth : Nat := 0
  word : Bool := false
  deriving DecidableEq, Repr

def mode (s : Scan) : Mode :=
  { quote := s.quote, depth := s.depth, word := s.followsWord }

/-- Outside quotes and parentheses these characters end a statement. -/
def isEnd (c : Char) : Bool :=
  c == ';' || c == '{' || c == '}'

namespace Mode

/-- The mode after one more character, unless that ends the statement. An apostrophe counts as a
quote only if there is another one ahead on the line. -/
def step (ahead : Bool) (m : Mode) (c : Char) : Option Mode :=
  match m.quote with
  | some q =>
    if m.escaped then some { m with escaped := false, word := Text.isAlphanumeric c }
    else if c = '\\' then some { m with escaped := true, word := Text.isAlphanumeric c }
    else if c = q then some { m with quote := none, word := Text.isAlphanumeric c }
    else some { m with word := Text.isAlphanumeric c }
  | none =>
    if !m.word && (c == '"' || (c == '\'' && ahead)) then
      some { m with quote := some c, word := Text.isAlphanumeric c }
    else if c = '(' then some { m with depth := m.depth + 1, word := Text.isAlphanumeric c }
    else if c = ')' then some { m with depth := m.depth - 1, word := Text.isAlphanumeric c }
    else if m.depth = 0 ∧ isEnd c = true then none
    else some { m with word := Text.isAlphanumeric c }

/-- The mode after a text, unless a statement ends in it. The flag says whether an apostrophe
follows the text on its line. -/
def read (ahead : Bool) : Text → Mode → Option Mode
  | [], m => some m
  | c :: rest, m => (m.step (rest.contains '\'' || ahead) c).bind (read ahead rest)

theorem read_append (ahead : Bool) (t u : Text) (m : Mode) :
    read ahead (t ++ u) m = (read (u.contains '\'' || ahead) t m).bind (read ahead u) := by
  induction t generalizing m with
  | nil => rfl
  | cons c t ih =>
    have hahead : ((t ++ u).contains '\'' || ahead) =
        (t.contains '\'' || (u.contains '\'' || ahead)) := by
      simp [List.contains_eq_mem, Bool.or_assoc]
    simp only [List.cons_append, read, hahead, Option.bind_assoc, ih]

theorem step_eq_none_iff {ahead : Bool} {m : Mode} {c : Char} :
    m.step ahead c = none ↔ m.quote = none ∧ m.depth = 0 ∧ isEnd c = true := by
  cases hquote : m.quote with
  | some q =>
    simp only [step, hquote, reduceCtorEq, false_and, iff_false]
    grind
  | none =>
    have hend : isEnd c = true → c ≠ '"' ∧ c ≠ '\'' ∧ c ≠ '(' ∧ c ≠ ')' := by
      simp only [isEnd, Bool.or_eq_true, beq_iff_eq]
      rintro ((rfl | rfl) | rfl) <;> decide
    simp only [step, hquote]
    grind

/-- Where the automaton stops. -/
theorem word_of_step {ahead : Bool} {m m' : Mode} {c : Char} (h : m.step ahead c = some m') :
    m'.word = Text.isAlphanumeric c := by
  unfold step at h
  grind

theorem exists_of_read_eq_none {ahead : Bool} {t : Text} {m : Mode} (h : read ahead t m = none) :
    ∃ u c v m', t = u ++ c :: v ∧ read ((c :: v).contains '\'' || ahead) u m = some m' ∧
      m'.quote = none ∧ m'.depth = 0 ∧ isEnd c = true := by
  induction t generalizing m with
  | nil => cases h
  | cons c t ih =>
    rw [read, Option.bind_eq_none_iff] at h
    cases hstep : m.step (t.contains '\'' || ahead) c with
    | none =>
      obtain ⟨hquote, hdepth, hend⟩ := step_eq_none_iff.mp hstep
      exact ⟨[], c, t, m, rfl, rfl, hquote, hdepth, hend⟩
    | some m₁ =>
      obtain ⟨u, d, v, m', rfl, hread, hstop⟩ := ih (h m₁ hstep)
      refine ⟨c :: u, d, v, m', rfl, ?_, hstop⟩
      have hahead : (u.contains '\'' || ((d :: v).contains '\'' || ahead)) =
          ((u ++ d :: v).contains '\'' || ahead) := by
        simp [List.contains_eq_mem, Bool.or_assoc]
      rw [read, hahead, hstep, Option.bind_some, hread]

/-- Only in quotes can a backslash take the next character along. -/
theorem quote_of_escaped {ahead : Bool} {t : Text} {m m' : Mode}
    (hm : m.escaped = true → m.quote ≠ none) (h : read ahead t m = some m') :
    m'.escaped = true → m'.quote ≠ none := by
  induction t generalizing m with
  | nil =>
    cases h
    exact hm
  | cons c t ih =>
    rw [read, Option.bind_eq_some_iff] at h
    obtain ⟨m₁, hstep, hread⟩ := h
    refine ih ?_ hread
    unfold step at hstep
    grind

/-- The last character before which a backslash is pending is that backslash. -/
theorem escaped_eq_false_of_concat {ahead : Bool} {t : Text} {c : Char} {m m' : Mode}
    (hc : c ≠ '\\') (hm : m.escaped = true → m.quote ≠ none)
    (h : read ahead (t ++ [c]) m = some m') : m'.escaped = false := by
  rw [read_append, Option.bind_eq_some_iff] at h
  obtain ⟨m₁, hread, hlast⟩ := h
  have hquote := quote_of_escaped hm hread
  rw [read, Option.bind_eq_some_iff] at hlast
  obtain ⟨m₂, hstep, hread⟩ := hlast
  cases hread
  unfold step at hstep
  grind

theorem quote_eq {ahead : Bool} {t : Text} {m m' : Mode}
    (hm : ∀ q, m.quote = some q → q = '"' ∨ q = '\'') (h : read ahead t m = some m') :
    ∀ q, m'.quote = some q → q = '"' ∨ q = '\'' := by
  induction t generalizing m with
  | nil =>
    cases h
    exact hm
  | cons c t ih =>
    rw [read, Option.bind_eq_some_iff] at h
    obtain ⟨m₁, hstep, hread⟩ := h
    refine ih ?_ hread
    unfold step at hstep
    grind

/-- A semicolon or an opening brace that does not end a statement stands in a quote or in
parentheses. -/
theorem open_of_concat {ahead : Bool} {t : Text} {c : Char} {m : Mode}
    (hc : c = ';' ∨ c = '{') (h : read ahead (t ++ [c]) {} = some m) :
    m.quote ≠ none ∨ m.depth ≠ 0 := by
  rw [read_append, Option.bind_eq_some_iff] at h
  obtain ⟨m₁, hread, hlast⟩ := h
  have hquote := quote_eq (by simp) hread
  rw [read, Option.bind_eq_some_iff] at hlast
  obtain ⟨m₂, hstep, hnil⟩ := hlast
  cases hnil
  unfold step at hstep
  rcases hc with rfl | rfl <;> grind [isEnd]

/-- A quote opened by an apostrophe stays open as long as none follows. -/
theorem read_of_apostrophe (ahead : Bool) {t : Text} (ht : '\'' ∉ t) {m : Mode}
    (hm : m.quote = some '\'') : ∃ m', read ahead t m = some m' ∧ m'.quote = some '\'' := by
  induction t generalizing m with
  | nil => exact ⟨m, rfl, hm⟩
  | cons c t ih =>
    obtain ⟨hc, htail⟩ := List.ne_and_not_mem_of_not_mem_cons ht
    obtain ⟨m₁, hstep, hquote⟩ : ∃ m₁, m.step (t.contains '\'' || ahead) c = some m₁ ∧
        m₁.quote = some '\'' := by
      simp only [step, hm]
      grind
    obtain ⟨m', hread, hm'⟩ := ih htail hquote
    exact ⟨m', by rw [read, hstep, Option.bind_some, hread], hm'⟩

/-- An apostrophe that follows a text changes nothing before its last apostrophe, and at that one it
can only open a quote. -/
theorem read_ahead (t : Text) (m : Mode) :
    read true t m = read false t m ∨ ∃ m', read true t m = some m' ∧ m'.quote = some '\'' := by
  induction t generalizing m with
  | nil => exact Or.inl rfl
  | cons c t ih =>
    by_cases hsame : m.step (t.contains '\'' || true) c = m.step (t.contains '\'' || false) c
    · simp only [read, hsame]
      cases m.step (t.contains '\'' || false) c with
      | none => exact Or.inl rfl
      | some m₁ => exact ih m₁
    · right
      have hnone : t.contains '\'' = false := by
        apply Bool.eq_false_iff.mpr
        intro hmem
        simp [List.contains_iff_mem.mp hmem] at hsame
      obtain ⟨m₁, hstep, hquote⟩ : ∃ m₁, m.step (t.contains '\'' || true) c = some m₁ ∧
          m₁.quote = some '\'' := by
        simp only [hnone, step] at hsame ⊢
        grind
      obtain ⟨m', hread, hm'⟩ := read_of_apostrophe true
        (by simpa [List.contains_eq_mem] using hnone) hquote
      exact ⟨m', by rw [read, hstep, Option.bind_some, hread], hm'⟩

end Mode

/-! ## Pushing a text -/

/-- Takes a text of one line into the statement being read. -/
def pushAll (s : Scan) (line : Nat) (t : Text) : Scan :=
  t.foldl (fun s c ↦ s.push line c) s

/-- Opens the quote and the parentheses of a mode. -/
def turnTo (s : Scan) (m : Mode) : Scan :=
  { s with quote := m.quote, depth := m.depth }

/-- No comment starts with the text that follows. -/
def Unmarked (s : Scan) (t : Text) : Prop :=
  Text.allBlank s.pending = true →
    t.head?.any Text.isBlank = false ∧ Statement.commentMarker.isPrefixOf t = false

section Push

variable {s : Scan} {c : Char} {rest : Text}

theorem pushAll_turnTo (s : Scan) (m : Mode) (line : Nat) (t : Text) :
    (s.turnTo m).pushAll line t = (s.pushAll line t).turnTo m := by
  induction t generalizing s with
  | nil => rfl
  | cons c t ih => exact ih (s.push line c)

theorem pushAll_eq (s : Scan) (line : Nat) {t : Text} (ht : t ≠ []) :
    s.pushAll line t =
      { s with
        startLine := if Text.allBlank s.pending then line else s.startLine
        pending := t.reverse ++ s.pending } := by
  induction t generalizing s with
  | nil => exact absurd rfl ht
  | cons c t ih =>
    have hpush : s.pushAll line (c :: t) = (s.push line c).pushAll line t := rfl
    rw [hpush]
    by_cases hnil : t = []
    · simp [hnil, pushAll, push]
    · rw [ih _ hnil]
      cases hblank : Text.allBlank s.pending with
      | true => simp [push, hblank]
      | false =>
        have hcons : Text.allBlank (c :: s.pending) = false := allBlank_append [c] hblank
        simp [push, hblank, hcons]

theorem startsComment_of_unmarked (h : Unmarked s (c :: rest)) :
    s.startsComment c rest = false := by
  rw [startsComment]
  cases hblank : Text.allBlank s.pending with
  | false => exact Bool.false_and _
  | true => exact (h hblank).2

/-- After its first character a statement has begun. -/
theorem Unmarked.push (h : Unmarked s (c :: rest)) {s' : Scan} (u : Text)
    (hpending : s'.pending = u ++ c :: s.pending) (t : Text) : Unmarked s' t := by
  intro hblank
  simp only [hpending, Text.allBlank, List.all_append, List.all_cons, Bool.and_eq_true] at hblank
  have hc := (h hblank.2.2).1
  simp [hblank.2.1] at hc

end Push

/-! ## Reading a text -/

section Read

variable {s : Scan} {c : Char} {m : Mode} (line : Nat)

theorem mode_push (hm : m.escaped = false) (hword : m.word = Text.isAlphanumeric c) :
    ((s.push line c).turnTo m).mode = m := by
  rw [mode, turnTo, followsWord]
  simp only [push, ← hword, ← hm]

theorem readPlain_of_step {rest : Text} (hquote : s.quote = none)
    (h : s.mode.step (rest.contains '\'') c = some m) :
    s.readPlain line c rest = (s.push line c).turnTo m := by
  have hend : isEnd c = false → c ≠ ';' ∧ c ≠ '{' ∧ c ≠ '}' := by
    simp [isEnd, and_assoc]
  simp only [Mode.step, mode, hquote] at h
  simp only [readPlain, opensQuote]
  split at h
  · next hopens =>
    cases h
    rw [if_pos hopens]
    rfl
  · next hopens =>
    rw [if_neg hopens]
    split at h
    · next hparen =>
      cases h
      rw [if_pos hparen]
      simp [turnTo, push, hquote]
    · next hparen =>
      rw [if_neg hparen]
      split at h
      · next hclose =>
        cases h
        rw [if_pos hclose]
        simp [turnTo, push, hquote]
      · next hclose =>
        rw [if_neg hclose]
        split at h
        · cases h
        · next hstop =>
          cases h
          simp only [not_and, Bool.not_eq_true] at hstop
          by_cases hdepth : s.depth = 0
          · simp [hdepth, hend (hstop hdepth), turnTo, push, hquote]
          · simp [hdepth, turnTo, push, hquote]

/-- A character that the automaton reads becomes part of the statement being read. -/
theorem readChars_cons_of_step {rest : Text} (hstart : Unmarked s (c :: rest))
    (h : s.mode.step (rest.contains '\'') c = some m) (hm : m.escaped = false) :
    readChars line (c :: rest) s = readChars line rest ((s.push line c).turnTo m) := by
  cases hquote : s.quote with
  | none =>
    rw [readChars_cons_of_plain line hquote (startsComment_of_unmarked hstart),
      readPlain_of_step line hquote h]
  | some q =>
    simp only [Mode.step, mode, hquote, Bool.false_eq_true, if_false] at h
    split at h
    · cases h
      cases hm
    · next hbackslash =>
      split at h
      · next hclose =>
        cases h
        subst hclose
        exact readChars_cons_of_closing line hquote hbackslash
      · next hclose =>
        cases h
        rw [readChars_cons_of_quoted line hquote hbackslash hclose]
        simp [turnTo, push, hquote]

/-- Only a backslash inside a quote takes the next character along. -/
theorem exists_quote_of_step {ahead : Bool} (h : s.mode.step ahead c = some m)
    (hm : m.escaped = true) : ∃ q, s.quote = some q ∧ c = '\\' ∧
      m = { quote := some q, escaped := true, depth := s.depth, word := false } := by
  have hword : Text.isAlphanumeric '\\' = false := by decide
  cases hquote : s.quote with
  | none =>
    simp only [Mode.step, mode, hquote] at h
    grind
  | some q =>
    simp only [Mode.step, mode, hquote, Bool.false_eq_true, if_false] at h
    grind

/-- A text that the automaton reads to its end becomes part of the statement being read. -/
theorem readChars_of_read (after : Text) : ∀ {t : Text} {s : Scan} {m : Mode},
    s.mode.read (after.contains '\'') t = some m → m.escaped = false → Unmarked s (t ++ after) →
      readChars line (t ++ after) s = readChars line after ((s.pushAll line t).turnTo m)
  | [], s, m, hread, _, _ => by
    cases hread
    rfl
  | c :: t, s, m, hread, hescaped, hstart => by
    rw [List.cons_append] at hstart ⊢
    have hahead : (t.contains '\'' || after.contains '\'') = (t ++ after).contains '\'' := by
      simp [List.contains_eq_mem]
    rw [Mode.read, hahead, Option.bind_eq_some_iff] at hread
    obtain ⟨m₁, hstep, hread⟩ := hread
    cases hm₁ : m₁.escaped with
    | false =>
      have hmode : ((s.push line c).turnTo m₁).mode = m₁ :=
        mode_push line hm₁ (Mode.word_of_step hstep)
      rw [readChars_cons_of_step line hstart hstep hm₁,
        readChars_of_read after (by rwa [hmode]) hescaped (hstart.push [] rfl _), pushAll_turnTo]
      rfl
    | true =>
      obtain ⟨q, hquote, rfl, rfl⟩ := exists_quote_of_step hstep hm₁
      match t, hread with
      | [], hread =>
        cases hread
        cases hescaped
      | d :: t, hread =>
        have hmode : ((s.push line '\\').push line d).mode =
            { quote := some q, depth := s.depth, word := Text.isAlphanumeric d } := by
          simp [mode, followsWord, push, hquote]
        have htaken : ((s.push line '\\').push line d).mode.read (after.contains '\'') t =
            some m := by
          rw [hmode]
          simpa [Mode.read, Mode.step] using hread
        have hstarted : Unmarked ((s.push line '\\').push line d) (t ++ after) :=
          hstart.push [d] (by simp [push]) _
        rw [List.cons_append, readChars_cons_of_escaped line hquote,
          readChars_of_read after htaken hescaped hstarted]
        rfl

end Read

end StyledMarkup.Scan
