import StyledMarkup.Proofs.Statement.Completes
import StyledMarkup.Proofs.Statement.Locality

/-!
# One line or many

Statements that end by themselves may stand on lines of their own or, with a space between them, on
one line. Two things tell the two forms apart. A statement that leaves a parenthesis open goes on
with the next statement in either form. An apostrophe that is alone in its statement opens a quote
as soon as another one follows on the same line. Main statement: nothing else does.
-/

namespace StyledMarkup

namespace Scan

/-! ## Statements that stay -/

/-- One of the statements after `earlier`, the next one, has the property `Q`. -/
def Holds (earlier : List Statement) (Q : Statement → Prop) (s : Scan) : Prop :=
  ∃ later st, s.finished = later ++ st :: earlier ∧ Q st

section Holds

variable {earlier : List Statement} {Q : Statement → Prop} {s s' : Scan} (line : Nat)

theorem Holds.append (h : Holds earlier Q s) (more : List Statement)
    (hfinished : s'.finished = more ++ s.finished) : Holds earlier Q s' := by
  obtain ⟨later, st, heq, hst⟩ := h
  exact ⟨more ++ later, st, by rw [hfinished, heq, List.append_assoc], hst⟩

theorem Holds.flush (h : Holds earlier Q s) : Holds earlier Q s.flush := by
  unfold Scan.flush
  split
  · exact h.append [] rfl
  · exact h.append [_] rfl

variable (hQ : ∀ st, Q st → takesBrace st = true → Q ⟨st.text ++ [' ', '{'], st.line⟩)
include hQ

theorem Holds.flushOpener (h : Holds earlier Q s) : Holds earlier Q s.flushOpener := by
  unfold Scan.flushOpener
  split
  · exact h.flush
  · next previous before hfinished =>
    split
    · next hjoin =>
      obtain ⟨later, st, heq, hst⟩ := h
      rw [hfinished] at heq
      cases later with
      | nil =>
        obtain ⟨rfl, rfl⟩ := List.cons.inj heq
        exact ⟨[], _, rfl, hQ previous hst hjoin.2⟩
      | cons last later =>
        obtain ⟨-, rfl⟩ := List.cons.inj heq
        exact ⟨_ :: later, st, rfl, hst⟩
    · exact h.flush

theorem Holds.readPlain (h : Holds earlier Q s) (c : Char) (rest : Text) :
    Holds earlier Q (s.readPlain line c rest) := by
  have hpush : Holds earlier Q (s.push line c) := h.append [] rfl
  have hcloser : Holds earlier Q (s.flush.push line c) := h.flush.append [] rfl
  have hread := reads s line c rest
  generalize s.readPlain line c rest = s' at hread
  cases hread with
  | quote => exact h.append [] rfl
  | opening => exact h.append [] rfl
  | closing => exact h.append [] rfl
  | plain => exact hpush
  | semicolon => exact hpush.flush
  | opener => exact hpush.flushOpener hQ
  | closer => exact hcloser.flush

theorem Holds.readChars {t : Text} (h : Holds earlier Q s) :
    Holds earlier Q (readChars line t s) := by
  fun_induction Scan.readChars line t s with
  | case1 s => exact h
  | case2 s q hq => exact h.append [] rfl
  | case3 s q hq escaped rest ih => exact ih (h.append [] rfl)
  | case4 rest s q hq hbackslash ih => exact ih (h.append [] rfl)
  | case5 c rest s q hq hbackslash hc ih => exact ih (h.append [] rfl)
  | case6 c rest s hquote hstart => exact h.append [_] rfl
  | case7 c rest s hquote hstart ih => exact ih (h.readPlain line hQ c rest)

omit hQ in
theorem Holds.endLine (h : Holds earlier Q s) : Holds earlier Q s.endLine := by
  unfold Scan.endLine
  split
  · split
    · exact h
    · exact h.append [] rfl
  · exact h.flush

end Holds

/-! ## Statements that go on -/

/-- The statement after `earlier` starts with `p`, whether it is finished or being read. -/
def Starts (earlier : List Statement) (p : Text) (s : Scan) : Prop :=
  s.finished = earlier ∧ p <+: s.begun ∨ Holds earlier (p <+: ·.text) s

section Starts

variable {earlier : List Statement} {p : Text} {s s' : Scan} (line : Nat)

theorem takesBrace_isPrefix (st : Statement) (h : p <+: st.text) (_ : takesBrace st = true) :
    p <+: st.text ++ [' ', '{'] :=
  h.trans (List.prefix_append _ _)

variable (hend : p.getLast?.any Text.isBlank = false) (hlong : 2 ≤ p.length)
include hend hlong

theorem isPrefix_text (h : p <+: s.begun) : p <+: s.text := by
  have htrim : s.text = Text.trim s.begun := by
    rw [text_eq_trimEnd, Text.trim, begun, Text.trimStart, Text.trimStart,
      List.dropWhile_idempotent]
  have hne : p ≠ [] := by
    rintro rfl
    simp at hlong
  have hstart : p.head?.any Text.isBlank = false := by
    obtain ⟨c, rest, rfl⟩ := List.exists_cons_of_ne_nil hne
    obtain ⟨more, hmore⟩ := h
    exact Text.head?_trimStart_not_blank s.pending.reverse (by rw [← begun, ← hmore]; rfl)
  rw [htrim]
  exact Text.isPrefix_trim hne hstart hend h

theorem Starts.flush (h : Starts earlier p s) : Holds earlier (p <+: ·.text) s.flush := by
  rcases h with ⟨rfl, hbegun⟩ | h
  · have htext := isPrefix_text hend hlong hbegun
    have hlength := htext.length_le
    rw [flush_of_text (fun hnil ↦ ?_) (fun hsemicolon ↦ ?_)]
    · exact ⟨[], _, rfl, htext⟩
    · rw [hnil, List.length_nil] at hlength
      omega
    · rw [hsemicolon, List.length_singleton] at hlength
      omega
  · exact h.flush

omit hend in
theorem Starts.push (h : Starts earlier p s) {c : Char} (hfinished : s'.finished = s.finished)
    (hpending : s'.pending = c :: s.pending) : Starts earlier p s' := by
  rcases h with ⟨rfl, hbegun⟩ | h
  · refine Or.inl ⟨hfinished, hbegun.trans ?_⟩
    have hne : s.begun ≠ [] := by
      intro hnil
      have hlength := hbegun.length_le
      rw [hnil, List.length_nil] at hlength
      omega
    have hpush : s'.begun = (s.push 0 c).begun := by rw [begun, begun, hpending, push]
    rw [hpush, begun_push s 0 (Or.inl hne)]
    exact List.prefix_append _ _
  · exact Or.inr (h.append [] hfinished)

theorem Starts.readPlain (h : Starts earlier p s) (c : Char) (rest : Text) :
    Starts earlier p (s.readPlain line c rest) := by
  have hpush : Starts earlier p (s.push line c) := h.push hlong rfl rfl
  have hcloser : Holds earlier (p <+: ·.text) (s.flush.push line c) :=
    (h.flush hend hlong).append [] rfl
  have hopener : Starts earlier p (s.push line c).flushOpener := by
    rcases hpush with ⟨hfinished, hbegun⟩ | hholds
    · have htext := (isPrefix_text hend hlong hbegun).length_le
      rw [flushOpener_eq_flush fun hbrace ↦ ?_]
      · exact Or.inr (Starts.flush hend hlong (Or.inl ⟨hfinished, hbegun⟩))
      · rw [hbrace, List.length_singleton] at htext
        omega
    · exact Or.inr (hholds.flushOpener takesBrace_isPrefix)
  have hread := reads s line c rest
  generalize s.readPlain line c rest = s' at hread
  cases hread with
  | quote => exact h.push hlong rfl rfl
  | opening => exact h.push hlong rfl rfl
  | closing => exact h.push hlong rfl rfl
  | plain => exact hpush
  | semicolon => exact Or.inr (hpush.flush hend hlong)
  | opener => exact hopener
  | closer => exact Or.inr hcloser.flush

theorem Starts.readChars {t : Text} (h : Starts earlier p s) :
    Starts earlier p (readChars line t s) := by
  fun_induction Scan.readChars line t s with
  | case1 s => exact h
  | case2 s q hq => exact h.push hlong rfl rfl
  | case3 s q hq escaped rest ih =>
    have hbackslash : Starts earlier p (s.push line '\\') := h.push hlong rfl rfl
    exact ih (hbackslash.push hlong rfl rfl)
  | case4 rest s q hq hbackslash ih => exact ih (h.push hlong rfl rfl)
  | case5 c rest s q hq hbackslash hc ih => exact ih (h.push hlong rfl rfl)
  | case6 c rest s hquote hstart =>
    rcases h with ⟨-, hbegun⟩ | h
    · rw [startsComment, Bool.and_eq_true, ← begun_eq_nil_iff] at hstart
      have hlength := hbegun.length_le
      rw [hstart.1, List.length_nil] at hlength
      omega
    · exact Or.inr (h.append [_] rfl)
  | case7 c rest s hquote hstart ih => exact ih (h.readPlain line hend hlong c rest)

theorem Starts.endLine (h : Starts earlier p s) : Starts earlier p s.endLine := by
  unfold Scan.endLine
  split
  · split
    · exact h
    · exact h.push hlong rfl rfl
  · exact Or.inr (h.flush hend hlong)

theorem Starts.foldl_readLine (lines : List (Nat × Text)) (h : Starts earlier p s) :
    Starts earlier p (lines.foldl (fun s l ↦ s.readLine l.1 l.2) s) := by
  induction lines generalizing s with
  | nil => exact h
  | cons l lines ih => exact ih ((h.readChars l.1 hend hlong).endLine hend hlong)

end Starts

section Open

variable {s : Scan} (line : Nat) (hopen : s.quote ≠ none ∨ s.depth ≠ 0)
include hopen

/-- Where a quote or a parenthesis is open, the next character belongs to the statement. -/
theorem starts_of_open (hne : s.begun ≠ []) {d : Char} (hd : Text.isBlank d = false) (rest : Text) :
    Starts s.finished (s.begun ++ [d]) (readChars line (d :: rest) s) := by
  have hend : (s.begun ++ [d]).getLast?.any Text.isBlank = false := by simpa using hd
  have hlong : 2 ≤ (s.begun ++ [d]).length := by
    have := List.length_pos_of_ne_nil hne
    rw [List.length_append, List.length_singleton]
    omega
  have hpush : ∀ s' : Scan, s'.finished = s.finished → s'.pending = d :: s.pending →
      Starts s.finished (s.begun ++ [d]) s' := by
    intro s' hfinished hpending
    refine Or.inl ⟨hfinished, ?_⟩
    have hbegun : s'.begun = (s.push line d).begun := by rw [begun, begun, hpending, push]
    rw [hbegun, begun_push s line (Or.inl hne)]
  cases hquote : s.quote with
  | some q =>
    by_cases hbackslash : d = '\\'
    · cases rest with
      | nil =>
        have hread : readChars line [d] s = s.push line d := by
          rw [readChars.eq_def]
          simp [hquote, hbackslash]
        rw [hread]
        exact hpush _ rfl rfl
      | cons e rest =>
        subst hbackslash
        rw [readChars_cons_of_escaped line hquote]
        have hescaped : Starts s.finished (s.begun ++ ['\\']) (s.push line '\\') := hpush _ rfl rfl
        exact Starts.readChars line hend hlong (hescaped.push hlong rfl rfl)
    · by_cases hclose : d = q
      · subst hclose
        rw [readChars_cons_of_closing line hquote hbackslash]
        exact Starts.readChars line hend hlong (hpush _ rfl rfl)
      · rw [readChars_cons_of_quoted line hquote hbackslash hclose]
        exact Starts.readChars line hend hlong (hpush _ rfl rfl)
  | none =>
    have hdepth : s.depth ≠ 0 := hopen.resolve_left fun h ↦ h hquote
    have hblank : Text.allBlank s.pending = false :=
      Bool.of_not_eq_true fun hall ↦ hne ((begun_eq_nil_iff s).mpr hall)
    rw [readChars_cons_of_plain line hquote (startsComment_of_pending hblank)]
    refine Starts.readChars line hend hlong ?_
    have hread := reads s line d rest
    generalize s.readPlain line d rest = s' at hread
    cases hread with
    | quote => exact hpush _ rfl rfl
    | opening => exact hpush _ rfl rfl
    | closing => exact hpush _ rfl rfl
    | plain => exact hpush _ rfl rfl
    | semicolon hzero => exact absurd hzero hdepth
    | opener hzero => exact absurd hzero hdepth
    | closer hzero => exact absurd hzero hdepth

theorem readChars_space_of_open (hne : s.begun ≠ []) (hquote : s.quote ≠ some ' ') (rest : Text) :
    readChars line (' ' :: rest) s =
      readChars line rest { s with pending := ' ' :: s.pending } := by
  have hblank : Text.allBlank s.pending = false :=
    Bool.of_not_eq_true fun hall ↦ hne ((begun_eq_nil_iff s).mpr hall)
  rw [← push_of_pending line hblank]
  cases hq : s.quote with
  | some q =>
    exact readChars_cons_of_quoted line hq (by decide) fun heq ↦ hquote (heq ▸ hq)
  | none =>
    have hdepth : s.depth ≠ 0 := hopen.resolve_left fun h ↦ h hq
    rw [readChars_cons_of_plain line hq (startsComment_of_pending hblank)]
    simp [readPlain, opensQuote, hdepth]

end Open

end Scan

/-! ## Single statements -/

namespace Statement

/-- The texts of the statements of a source. -/
def texts (source : Text) : Except ScanError (List Text) :=
  (scan source).map (List.map text)

theorem texts_eq_ok_iff {source : Text} {ts : List Text} :
    texts source = .ok ts ↔
      ∃ statements, scan source = .ok statements ∧ statements.map text = ts := by
  cases hscan : scan source <;> simp [texts, hscan, Except.map]

/-- A text that is scanned as itself and ends by itself. -/
structure IsSingle (t : Text) : Prop where
  alone : texts t = .ok [t]
  not_comment : commentMarker.isPrefixOf t = false
  ends : t.endsWith ';' = true ∨ t.endsWith '{' = true ∨ t = ['}']

instance (t : Text) : Decidable (IsSingle t) :=
  decidable_of_iff (texts t = .ok [t] ∧ commentMarker.isPrefixOf t = false ∧
      (t.endsWith ';' = true ∨ t.endsWith '{' = true ∨ t = ['}']))
    ⟨fun h ↦ ⟨h.1, h.2.1, h.2.2⟩, fun h ↦ ⟨h.alone, h.not_comment, h.ends⟩⟩

namespace IsSingle

variable {t : Text} (h : IsSingle t)
include h

theorem exists_scan : ∃ line, scan t = .ok [⟨t, line⟩] := by
  obtain ⟨statements, hscan, htexts⟩ := texts_eq_ok_iff.mp h.alone
  obtain ⟨st, rfl, htext⟩ := List.map_eq_singleton_iff.mp htexts
  exact ⟨st.line, by rw [hscan, ← htext]⟩

theorem isShaped : t.IsTrimmed ∧ t ≠ [] ∧ '\n' ∉ t := by
  obtain ⟨line, hscan⟩ := h.exists_scan
  have hshaped := isShaped_of_scan hscan _ List.mem_cons_self
  exact ⟨hshaped.trimmed, hshaped.ne_nil, newline_not_mem_of_scan hscan _ List.mem_cons_self⟩

theorem scan_eq : scan t = (Scan.readChars 1 t {}).endLine.finish := by
  obtain ⟨htrimmed, hne, hnewline⟩ := h.isShaped
  rw [scan, Text.lines_of_not_mem hnewline hne, scanLines]
  simp [Scan.readLine, htrimmed.trim_eq]

theorem unmarked {s : Scan} (after : Text) : Scan.Unmarked s (t ++ after) := by
  obtain ⟨htrimmed, hne, -⟩ := h.isShaped
  refine fun _ ↦ ⟨?_, ?_⟩
  · obtain ⟨c, rest, rfl⟩ := List.exists_cons_of_ne_nil hne
    simpa using htrimmed.1 c rfl
  · have hcomment := h.not_comment
    have hends := h.ends
    match t with
    | [] => exact absurd rfl hne
    | [c] =>
      have hslash : c ≠ '/' := by
        rintro rfl
        revert hends
        decide
      simp [commentMarker, List.isPrefixOf, hslash.symm]
    | c :: d :: rest => simpa [commentMarker, List.isPrefixOf] using hcomment

theorem head?_ne_semicolon : t.head? ≠ some ';' := by
  obtain ⟨line, hscan⟩ := h.exists_scan
  obtain ⟨pieces, hspells, -⟩ := exists_pieces hscan
  intro hhead
  cases hspells with
  | @cons _ piece _ _ hpiece _ =>
    have hfirst : (line, ';') ∈ piece := by
      apply List.mem_of_head?
      rw [hpiece.2, hhead]
      rfl
    have hsolid : ';' ∈ t.filter Text.isSolid := by
      rw [← hpiece.1]
      exact List.mem_map_of_mem hfirst
    simp [Text.isSolid] at hsolid

/-- A statement that is finished while the text is read, and takes no more braces, is all there
is. -/
theorem eq_of_readChars {s : Scan} {st : Statement} {earlier : List Statement} {v : Text}
    (hread : Scan.readChars 1 t {} = Scan.readChars 1 v s)
    (hfinished : s.finished = st :: earlier) (hbrace : Scan.takesBrace st = false) :
    st.text = t ∧ earlier = [] := by
  obtain ⟨line, hscan⟩ := h.exists_scan
  have hholds : Scan.Holds earlier (· = st) s := ⟨[], st, hfinished, rfl⟩
  have hkept : ∀ st', st' = st → Scan.takesBrace st' = true →
      (⟨st'.text ++ [' ', '{'], st'.line⟩ : Statement) = st := by
    rintro st' rfl htakes
    simp [hbrace] at htakes
  rw [h.scan_eq, hread] at hscan
  obtain ⟨later, st', heq, rfl⟩ := ((hholds.readChars 1 hkept (t := v)).endLine).flush
  unfold Scan.finish at hscan
  split at hscan
  · cases hscan
  · have hsingle := List.reverse_eq_iff.mp (Except.ok.inj hscan)
    rw [heq] at hsingle
    cases later with
    | nil =>
      obtain ⟨rfl, rfl⟩ := List.cons.inj hsingle
      exact ⟨rfl, rfl⟩
    | cons last later => simp at hsingle

/-- Where the automaton stops, the statement ends. -/
theorem completes (hends : Scan.endsStatement false t = true) : Scan.Completes false t := by
  obtain ⟨htrimmed, hne, -⟩ := h.isShaped
  obtain ⟨u, c, v, m, rfl, hread, hquote, hdepth, hc⟩ :=
    Scan.Mode.exists_of_read_eq_none (Option.isNone_iff_eq_none.mp hends)
  rw [Bool.or_false] at hread
  have hescaped : m.escaped = false := by
    have := Scan.Mode.quote_of_escaped (by simp) hread
    simpa [hquote] using this
  have hunmarked : Scan.Unmarked {} (u ++ c :: v) := by
    simpa using h.unmarked []
  have hstart := Scan.startsComment_of_unmarked (hunmarked.pushAll 1 m)
  have hchars := Scan.readChars_of_read 1 _ hread hescaped hunmarked
  rw [Scan.readChars_cons_of_plain 1 hquote hstart] at hchars
  by_cases hcloser : c = '}'
  · have hplain : ((({} : Scan).pushAll 1 u).turnTo m).readPlain 1 c v =
        (((({} : Scan).pushAll 1 u).turnTo m).flush.push 1 '}').flush := by
      simp [Scan.readPlain, Scan.opensQuote, hcloser, Scan.turnTo, hdepth]
    have hfinished := Scan.finished_flush_push_closer ((({} : Scan).pushAll 1 u).turnTo m) 1
    rw [hplain] at hchars
    have htext := (h.eq_of_readChars hchars hfinished (by decide)).1
    dsimp only at htext
    rw [← htext]
    exact .closer
  · have hc' : c = ';' ∨ c = '{' := by simpa [Scan.isEnd, hcloser] using hc
    have hsemicolon : u ++ [c] ≠ [';'] := by
      intro heq
      obtain ⟨rfl, rfl⟩ : u = [] ∧ c = ';' := by simpa [List.append_eq_cons_iff] using heq
      exact h.head?_ne_semicolon rfl
    have hfront : (u ++ [c]).IsTrimmed := htrimmed.front (by rcases hc' with rfl | rfl <;> decide)
    rw [Scan.readPlain_pushAll {} 1 u hdepth rfl hc',
      Scan.flush_pushAll {} 1 m rfl hfront (by simp) hsemicolon] at hchars
    have htext := (h.eq_of_readChars hchars rfl ?_).1
    · have hv : v = [] := by simpa using htext
      subst hv
      refine .ended hc' hsemicolon ?_ hquote hdepth
      rcases hc' with rfl | rfl <;> exact hread
    · refine Scan.takesBrace_of_endsWith (c := c) ?_ (by simp [Text.endsWith])
      exact hc'.imp_right Or.inl

/-- A statement that does not end by itself is read to its end, with a quote or a parenthesis
open. -/
theorem exists_mode {ahead : Bool} (hends : Scan.endsStatement ahead t = false) :
    ∃ m, Scan.Mode.read ahead t {} = some m ∧ m.escaped = false ∧
      (m.quote ≠ none ∨ m.depth ≠ 0) := by
  obtain ⟨m, hread⟩ := Option.isSome_iff_exists.mp (Option.isNone_eq_false_iff.mp hends)
  obtain ⟨u, c, rfl, hc⟩ : ∃ u c, t = u ++ [c] ∧ (c = ';' ∨ c = '{') := by
    rcases h.ends with hend | hend | rfl
    · obtain ⟨u, hu⟩ := Text.endsWith_iff.mp hend
      exact ⟨u, ';', hu, Or.inl rfl⟩
    · obtain ⟨u, hu⟩ := Text.endsWith_iff.mp hend
      exact ⟨u, '{', hu, Or.inr rfl⟩
    · cases ahead <;> cases hread
  refine ⟨m, hread, ?_, Scan.Mode.open_of_concat hc hread⟩
  exact Scan.Mode.escaped_eq_false_of_concat (by rcases hc with rfl | rfl <;> decide) (by simp)
    hread

/-- A statement that stays open takes in the characters that follow it. -/
theorem exists_readChars_of_not_ends {s : Scan} (hs : s.Idle) (after : Text)
    (hends : Scan.endsStatement (after.contains '\'') t = false) (line : Nat) :
    ∃ s' : Scan, Scan.readChars line (t ++ after) s = Scan.readChars line after s' ∧
      s'.finished = s.finished ∧ s'.begun = t ∧ (s'.quote ≠ none ∨ s'.depth ≠ 0) ∧
      s'.quote ≠ some ' ' := by
  obtain ⟨htrimmed, hne, -⟩ := h.isShaped
  obtain ⟨m, hread, hescaped, hopen⟩ := h.exists_mode hends
  have hspace : m.quote ≠ some ' ' := by
    intro hquote
    have := Scan.Mode.quote_eq (by simp) hread ' ' hquote
    revert this
    decide
  refine ⟨_, Scan.readChars_of_read line after (by rwa [hs.mode_eq]) hescaped (h.unmarked after),
    ?_, ?_, hopen, hspace⟩
  · simp [Scan.turnTo]
  · exact Scan.begun_pushAll s line m hs.blank htrimmed hne

/-- The last of several statements need not end by itself. -/
theorem finish_last {s : Scan} (hs : s.Idle) (line : Nat) :
    (Scan.readChars line t s).endLine.finish = .ok (⟨t, line⟩ :: s.finished).reverse := by
  obtain ⟨htrimmed, hne, -⟩ := h.isShaped
  cases hends : Scan.endsStatement false t with
  | true =>
    rw [hs.readChars_line htrimmed h.not_comment line (h.completes hends), Scan.finish_endLine rfl]
    rfl
  | false =>
    obtain ⟨m, hread, hescaped, -⟩ := h.exists_mode hends
    have hquote : m.quote = none := by
      obtain ⟨line', hscan⟩ := h.exists_scan
      have hchars := Scan.readChars_of_read 1 [] (by rwa [Scan.idle_empty.mode_eq]) hescaped
        (h.unmarked [])
      rw [List.append_nil, Scan.readChars] at hchars
      rw [h.scan_eq, hchars, Scan.finish, (Scan.endLine_keeps _).1] at hscan
      cases hm : m.quote with
      | none => rfl
      | some q => simp [Scan.turnTo, hm] at hscan
    exact hs.finish_line htrimmed h.not_comment line hne hread hquote

end IsSingle

/-! ## Several statements -/

/-- Every statement but the last ends by itself, where the flag says for what follows whether an
apostrophe of it is on the same line. -/
def Separable (ahead : List Text → Bool) (ts : List Text) : Prop :=
  ∀ t rest, t :: rest <:+ ts → rest ≠ [] → Scan.endsStatement (ahead rest) t = true

theorem separable_singleton (ahead : List Text → Bool) (t : Text) : Separable ahead [t] := by
  intro u rest hsuffix hne
  rcases List.suffix_cons_iff.mp hsuffix with heq | hnil
  · exact absurd (List.cons.inj heq).2 hne
  · simp at hnil

theorem separable_cons_iff {ahead : List Text → Bool} {t u : Text} {ts : List Text} :
    Separable ahead (t :: u :: ts) ↔
      Scan.endsStatement (ahead (u :: ts)) t = true ∧ Separable ahead (u :: ts) := by
  constructor
  · intro h
    exact ⟨h t (u :: ts) (List.suffix_refl _) (by simp),
      fun v rest hsuffix ↦ h v rest (hsuffix.trans (List.suffix_cons _ _))⟩
  · rintro ⟨hends, h⟩ v rest hsuffix hne
    rcases List.suffix_cons_iff.mp hsuffix with heq | hsuffix
    · obtain ⟨rfl, rfl⟩ := List.cons.inj heq
      exact hends
    · exact h v rest hsuffix hne

/-- The texts of the statements of a scan that ends here. -/
def finalTexts (s : Scan) : Except ScanError (List Text) :=
  s.finish.map (List.map text)

/-- A statement that took in more than its own text. -/
theorem finalTexts_ne_of_starts {earlier : List Statement} {t : Text} {d : Char} {s : Scan}
    (hd : Text.isBlank d = false) (h : Scan.Starts earlier (t ++ [' ', d]) s) (ts : List Text) :
    finalTexts s ≠ .ok ((earlier.reverse.map text) ++ t :: ts) := by
  intro hfinal
  obtain ⟨later, st, hfinished, hst⟩ := h.flush (by simpa using hd) (by simp)
  unfold finalTexts Scan.finish at hfinal
  split at hfinal
  · cases hfinal
  · have htexts := Except.ok.inj hfinal
    rw [hfinished] at htexts
    simp only [List.reverse_append, List.reverse_cons, List.append_assoc, List.map_append,
      List.append_cancel_left_eq] at htexts
    have htext : st.text = t := (List.cons.inj htexts).1
    have hlength := hst.length_le
    simp only [htext, List.length_append, List.length_cons] at hlength
    omega

theorem IsSingle.readLine_of_ends {t : Text} (h : IsSingle t)
    (hends : Scan.endsStatement false t = true) {s : Scan} (hs : s.Idle) (line : Nat) :
    s.readLine line t = Scan.between (⟨t, line⟩ :: s.finished) line := by
  have htrimmed := h.isShaped.1
  rw [Scan.readLine, htrimmed.trim_eq,
    hs.readChars_line htrimmed h.not_comment line (h.completes hends)]
  rfl

theorem IsSingle.exists_cons {t : Text} (h : IsSingle t) :
    ∃ d rest, t = d :: rest ∧ Text.isBlank d = false := by
  obtain ⟨htrimmed, hne, -⟩ := h.isShaped
  obtain ⟨d, rest, rfl⟩ := List.exists_cons_of_ne_nil hne
  exact ⟨d, rest, rfl, htrimmed.1 d rfl⟩

theorem finalTexts_of_idle {s : Scan} (hs : s.Idle) :
    finalTexts s = .ok (s.finished.reverse.map text) := by
  have htext : s.text = [] := s.text_eq_nil ((Scan.begun_eq_nil_iff s).mpr hs.blank)
  rw [finalTexts, Scan.finish, hs.quote, Scan.flush, if_pos (Or.inl htext)]
  rfl

/-- A statement that stays open takes in the next one. -/
theorem starts_of_joined {t u : Text} {s : Scan} (hu : IsSingle u) (hbegun : s.begun = t)
    (hne : t ≠ []) (hopen : s.quote ≠ none ∨ s.depth ≠ 0) (line : Nat) (rest : Text) :
    ∃ d, Text.isBlank d = false ∧ Scan.Starts s.finished (t ++ [' ', d])
      (Scan.readChars line (u ++ rest) { s with pending := ' ' :: s.pending }) := by
  obtain ⟨d, u, rfl, hd⟩ := hu.exists_cons
  refine ⟨d, hd, ?_⟩
  have hspace : ({ s with pending := ' ' :: s.pending } : Scan).begun = t ++ [' '] :=
    hbegun ▸ Scan.begun_push s line (Or.inl (hbegun ▸ hne))
  have hstarts := Scan.starts_of_open (s := { s with pending := ' ' :: s.pending }) line hopen
    (by simp [hspace]) hd (u ++ rest)
  rw [hspace, List.append_assoc] at hstarts
  exact hstarts

/-- Statements on lines of their own. -/
theorem finalTexts_foldl_readLine_iff {ls : List (Nat × Text)} (hls : ∀ l ∈ ls, IsSingle l.2)
    {s : Scan} (hs : s.Idle) :
    finalTexts (ls.foldl (fun s l ↦ s.readLine l.1 l.2) s) =
        .ok ((s.finished.reverse.map text) ++ ls.map Prod.snd) ↔
      Separable (fun _ ↦ false) (ls.map Prod.snd) := by
  induction ls generalizing s with
  | nil => simp [finalTexts_of_idle hs, Separable]
  | cons l ls ih =>
    rw [List.forall_mem_cons] at hls
    obtain ⟨hl, hls⟩ := hls
    obtain ⟨htrimmed, hne, -⟩ := hl.isShaped
    cases ls with
    | nil =>
      simp only [List.map_cons, List.map_nil, List.foldl_cons, List.foldl_nil,
        separable_singleton, iff_true]
      rw [Scan.readLine, htrimmed.trim_eq, finalTexts, hl.finish_last hs]
      simp [Except.map]
    | cons l' ls =>
      rw [List.map_cons, List.map_cons, separable_cons_iff, ← List.map_cons, List.foldl_cons]
      cases hends : Scan.endsStatement false l.2 with
      | true =>
        have hnext := ih hls ((hl.completes hends).idle s.finished l.1 l.1)
        rw [hl.readLine_of_ends hends hs]
        simpa [Scan.between] using hnext
      | false =>
        simp only [Bool.false_eq_true, false_and, iff_false]
        obtain ⟨s', hread, hfinished, hbegun, hopen, -⟩ :=
          hl.exists_readChars_of_not_ends hs [] hends l.1
        have hl' := hls l' List.mem_cons_self
        obtain ⟨d, hd, hstarts⟩ := starts_of_joined hl' hbegun hne hopen l'.1 []
        have hend : (l.2 ++ [' ', d]).getLast?.any Text.isBlank = false := by simpa using hd
        have hlong : 2 ≤ (l.2 ++ [' ', d]).length := by simp
        have hcontinued : s'.isContinued = true := by
          rcases hopen with hquote | hdepth
          · simp [Scan.isContinued, Option.isSome_iff_ne_none.mpr hquote]
          · simp [Scan.isContinued, hdepth]
        have hpending : s'.pending ≠ [] := by
          intro hnil
          simp [Scan.begun, hnil, Text.trimStart] at hbegun
          exact hne hbegun
        have hline : s.readLine l.1 l.2 = { s' with pending := ' ' :: s'.pending } := by
          rw [List.append_nil, Scan.readChars] at hread
          rw [Scan.readLine, htrimmed.trim_eq, hread, Scan.endLine, if_pos hcontinued,
            if_neg hpending]
        rw [hline, List.foldl_cons, Scan.readLine, hl'.isShaped.1.trim_eq, ← hfinished]
        rw [List.append_nil] at hstarts
        exact finalTexts_ne_of_starts hd
          ((hstarts.endLine hend hlong).foldl_readLine hend hlong ls) _

theorem intercalate_cons_cons (t u : Text) (ts : List Text) :
    [' '].intercalate (t :: u :: ts) = t ++ ' ' :: [' '].intercalate (u :: ts) := by
  simp [List.intercalate, List.intersperse]

theorem contains_intercalate (ts : List Text) :
    ([' '].intercalate ts).contains '\'' = ts.any (·.contains '\'') := by
  induction ts with
  | nil => rfl
  | cons t ts ih =>
    cases ts with
    | nil => simp [List.intercalate]
    | cons u ts =>
      rw [intercalate_cons_cons, List.any_cons, ← ih]
      simp [List.contains_eq_mem]

theorem isLine_intercalate {t : Text} {ts : List Text} (hts : ∀ u ∈ t :: ts, IsSingle u) :
    [' '].intercalate (t :: ts) ≠ [] ∧ '\n' ∉ [' '].intercalate (t :: ts) ∧
      Text.IsTrimmed ([' '].intercalate (t :: ts)) := by
  induction ts generalizing t with
  | nil =>
    obtain ⟨htrimmed, hne, hnewline⟩ := (hts t List.mem_cons_self).isShaped
    simpa [List.intercalate] using ⟨hne, hnewline, htrimmed⟩
  | cons u ts ih =>
    rw [List.forall_mem_cons] at hts
    obtain ⟨htrimmed, hne, hnewline⟩ := hts.1.isShaped
    obtain ⟨hne', hnewline', htrimmed'⟩ := ih hts.2
    rw [intercalate_cons_cons]
    refine ⟨by simp, by simp [hnewline, hnewline'], fun c hc ↦ htrimmed.1 c ?_,
      fun c hc ↦ htrimmed'.2 c ?_⟩
    · rwa [List.head?_append_of_ne_nil _ hne] at hc
    · rwa [List.getLast?_append_of_ne_nil _ (by simp), List.getLast?_cons_of_ne_nil hne'] at hc

/-- Statements on one line. -/
theorem finalTexts_readChars_iff {t : Text} {ts : List Text} (hts : ∀ u ∈ t :: ts, IsSingle u)
    {s : Scan} (hs : s.Idle) (line : Nat) :
    finalTexts (Scan.readChars line ([' '].intercalate (t :: ts)) s).endLine =
        .ok ((s.finished.reverse.map text) ++ t :: ts) ↔
      Separable (fun rest ↦ rest.any (·.contains '\'')) (t :: ts) := by
  induction ts generalizing t s with
  | nil =>
    have ht := hts t List.mem_cons_self
    simp only [separable_singleton, iff_true]
    have hone : [' '].intercalate [t] = t := by simp [List.intercalate]
    rw [hone, finalTexts, ht.finish_last hs]
    simp [Except.map]
  | cons u ts ih =>
    rw [List.forall_mem_cons] at hts
    obtain ⟨ht, hts⟩ := hts
    have hu := hts u List.mem_cons_self
    obtain ⟨htrimmed, hne, -⟩ := ht.isShaped
    have hahead : (' ' :: [' '].intercalate (u :: ts)).contains '\'' =
        (u :: ts).any (·.contains '\'') := by
      rw [← contains_intercalate]
      simp [List.contains_eq_mem]
    rw [separable_cons_iff, intercalate_cons_cons, ← hahead]
    cases hends : Scan.endsStatement ((' ' :: [' '].intercalate (u :: ts)).contains '\'') t with
    | true =>
      have halone := ht.completes (Scan.endsStatement_false hends)
      have hcomplete := halone.of_ends hends
      have hcomment := (ht.unmarked (s := {}) (' ' :: [' '].intercalate (u :: ts)) rfl).2
      rw [hs.readChars_completes _ hcomplete htrimmed hcomment line]
      have hidle := halone.idle s.finished line line
      have hspace : Scan.readChars line (' ' :: [' '].intercalate (u :: ts))
          (Scan.between (⟨t, line⟩ :: s.finished) line) =
          Scan.readChars line ([' '].intercalate (u :: ts))
            ((Scan.between (⟨t, line⟩ :: s.finished) line).push line ' ') := by
        rw [Scan.readChars_cons_of_plain line rfl rfl,
          Scan.readPlain_of_isPlain line rfl (by decide)]
      have hnext := ih hts (hidle.push_blank (c := ' ') line (by decide))
      rw [hspace]
      simpa [Scan.between, Scan.push] using hnext
    | false =>
      simp only [Bool.false_eq_true, false_and, iff_false]
      obtain ⟨s', hread, hfinished, hbegun, hopen, hspace⟩ :=
        ht.exists_readChars_of_not_ends hs _ hends line
      obtain ⟨rest, hrest⟩ : ∃ rest, [' '].intercalate (u :: ts) = u ++ rest := by
        cases ts with
        | nil => exact ⟨[], by simp [List.intercalate]⟩
        | cons v ts => exact ⟨_, intercalate_cons_cons u v ts⟩
      obtain ⟨d, hd, hstarts⟩ := starts_of_joined hu hbegun hne hopen line rest
      rw [hread, Scan.readChars_space_of_open line hopen (hbegun ▸ hne) hspace, hrest, ← hfinished]
      exact finalTexts_ne_of_starts hd (hstarts.endLine (by simpa using hd) (by simp)) _

/-- Statements that end by themselves are cut apart at newlines exactly if each but the last is over
with its line, and at spaces exactly if each but the last is over also with the apostrophes of those
after it in sight. -/
theorem texts_joined_iff {ts : List Text} (hts : ∀ t ∈ ts, IsSingle t) :
    (texts (joinLines ts) = .ok ts ↔ Separable (fun _ ↦ false) ts) ∧
      (texts ([' '].intercalate ts) = .ok ts ↔
        Separable (fun rest ↦ rest.any (·.contains '\'')) ts) := by
  constructor
  · have hlines : Text.lines (joinLines ts) = ts := by
      refine Text.lines_joinLines fun t ht ↦ ?_
      obtain ⟨htrimmed, hne, hnewline⟩ := (hts t ht).isShaped
      refine ⟨⟨hnewline, fun hreturn ↦ ?_⟩, hne⟩
      have := htrimmed.2 '\r' hreturn
      revert this
      decide
    have hsingle : ∀ l ∈ (ts.zipIdx 1).map Prod.swap, IsSingle l.2 := by
      intro l hl
      obtain ⟨l', hl', rfl⟩ := List.mem_map.mp hl
      exact hts _ (List.fst_mem_of_mem_zipIdx hl')
    have hsnd : ((ts.zipIdx 1).map Prod.swap).map Prod.snd = ts := by
      simp [Function.comp_def]
    have hiff := finalTexts_foldl_readLine_iff hsingle Scan.idle_empty
    rw [hsnd] at hiff
    rw [← hiff, texts, scan, hlines, scanLines]
    rfl
  · cases ts with
    | nil => simp [texts, scan, scanLines, Separable, Except.map, List.intercalate, Text.lines,
        Scan.finish, Scan.flush, Scan.text, Text.trim, Text.trimStart, Text.trimEnd]
    | cons t ts =>
      obtain ⟨hne, hnewline, htrimmed⟩ := isLine_intercalate hts
      rw [← finalTexts_readChars_iff hts Scan.idle_empty 1, texts, scan,
        Text.lines_of_not_mem hnewline hne, scanLines]
      simp [Scan.readLine, htrimmed.trim_eq, finalTexts]

theorem texts_joined_block :
    (∀ t ∈ ["a, b \x7b".toList, "--text: 'a' it's;".toList, "\x7d".toList, "'tis(;".toList],
        IsSingle t) ∧
      texts (joinLines
          ["a, b \x7b".toList, "--text: 'a' it's;".toList, "\x7d".toList, "'tis(;".toList]) =
        .ok ["a, b \x7b".toList, "--text: 'a' it's;".toList, "\x7d".toList, "'tis(;".toList] ∧
      texts "a, b \x7b --text: 'a' it's; \x7d 'tis(;".toList =
        .ok ["a, b \x7b".toList, "--text: 'a' it's;".toList, "\x7d".toList, "'tis(;".toList] := by
  have hts : ∀ t ∈ ["a, b \x7b".toList, "--text: 'a' it's;".toList, "\x7d".toList,
      "'tis(;".toList], IsSingle t := by
    decide +kernel
  obtain ⟨hlines, hspaces⟩ := texts_joined_iff hts
  refine ⟨hts, hlines.mpr ?_, hspaces.mpr ?_⟩
  · simp only [separable_cons_iff, separable_singleton, and_true]
    decide +kernel
  · simp only [separable_cons_iff, separable_singleton, and_true]
    decide +kernel

/-- A parenthesis that stays open joins two statements in either form, and two lone apostrophes do
so on one line only. -/
theorem not_texts_joined :
    ¬ (∀ ts : List Text, (∀ t ∈ ts, IsSingle t) → texts (joinLines ts) = .ok ts) ∧
      ¬ (∀ ts : List Text, (∀ t ∈ ts, IsSingle t) → texts (joinLines ts) = .ok ts →
        texts ([' '].intercalate ts) = .ok ts) := by
  constructor
  · intro hall
    have hjoined := hall ["(;".toList, "a;".toList] (by decide +kernel)
    revert hjoined
    decide +kernel
  · intro hall
    have hjoined := hall ["--text: 'tis;".toList, "--text: 'twas;".toList] (by decide +kernel)
      (by decide +kernel)
    revert hjoined
    decide +kernel

end Statement

end StyledMarkup
