import Mathlib
import StyledMarkup.Proofs.Statement.Shape

/-!
# Where the characters of a source go

Scanning drops blanks and semicolons that stand alone, and adds single spaces. Every other character
of a source comes out once, in its place: the statements cut the source into pieces that follow one
another, and a piece starts with the first character of its statement, on the line that the
statement remembers.
-/

namespace StyledMarkup

namespace Text

/-! ## Characters that are kept -/

/-- Neither a blank nor a semicolon. -/
def isSolid (c : Char) : Bool :=
  !isBlank c && c != ';'

/-- The first character that is not a blank. -/
def first? (t : Text) : Option Char :=
  t.find? fun c ↦ !isBlank c

theorem isSolid_of_isBlank {c : Char} (h : isBlank c = true) : isSolid c = false := by
  rw [isSolid, h]
  rfl

theorem filter_isSolid_of_blanks {t : Text} (h : ∀ c ∈ t, isBlank c = true) :
    t.filter isSolid = [] := by
  rw [List.filter_eq_nil_iff]
  intro c hc
  simp [isSolid_of_isBlank (h c hc)]

theorem first?_of_blanks {t : Text} (h : ∀ c ∈ t, isBlank c = true) : first? t = none := by
  rw [first?, List.find?_eq_none]
  intro c hc
  simp [h c hc]

theorem first?_eq_none_iff {t : Text} : first? t = none ↔ allBlank t = true := by
  simp [first?, allBlank]

theorem first?_append (t u : Text) : first? (t ++ u) = (first? t).or (first? u) :=
  List.find?_append

theorem first?_cons {c : Char} (hc : isBlank c = false) (t : Text) :
    first? (c :: t) = some c := by
  simp [first?, hc]

theorem allBlank_reverse (t : Text) : allBlank t.reverse = allBlank t := by
  simp [allBlank]

theorem filter_trim (t : Text) : (trim t).filter isSolid = t.filter isSolid := by
  obtain ⟨before, after, heq, hbefore, hafter⟩ := exists_trim_eq t
  conv_rhs => rw [heq]
  rw [List.filter_append, List.filter_append, filter_isSolid_of_blanks hbefore,
    filter_isSolid_of_blanks hafter, List.nil_append, List.append_nil]

theorem head?_trim (t : Text) : (trim t).head? = first? t := by
  obtain ⟨before, after, heq, hbefore, hafter⟩ := exists_trim_eq t
  conv_rhs => rw [heq]
  rw [first?_append, first?_append, first?_of_blanks hbefore, first?_of_blanks hafter,
    Option.none_or, Option.or_none]
  cases htrim : trim t with
  | nil => rfl
  | cons c rest =>
    have hc : isBlank c = false := (isTrimmed_trim t).1 c (by rw [htrim, List.head?_cons])
    rw [List.head?_cons, first?_cons hc]

theorem trim_eq_nil_iff {t : Text} : trim t = [] ↔ first? t = none := by
  rw [← head?_trim, List.head?_eq_none_iff]

/-! ## Numbered characters -/

/-- The characters of a text, each with the number of its physical line. A newline is the last
character of its line. -/
def numbered (line : Nat) : Text → List (Nat × Char)
  | [] => []
  | c :: rest => (line, c) :: numbered (if c = '\n' then line + 1 else line) rest

/-- The characters that are kept of a text on one line. -/
def solids (line : Nat) (t : Text) : List (Nat × Char) :=
  (t.filter isSolid).map fun c ↦ (line, c)

@[simp] theorem solids_nil (line : Nat) : solids line [] = [] := rfl

theorem solids_append (line : Nat) (t u : Text) :
    solids line (t ++ u) = solids line t ++ solids line u := by
  simp [solids]

theorem solids_cons (line : Nat) (c : Char) (t : Text) :
    solids line (c :: t) = solids line [c] ++ solids line t :=
  solids_append line [c] t

theorem solids_singleton {c : Char} (hc : isSolid c = true) (line : Nat) :
    solids line [c] = [(line, c)] := by
  simp [solids, hc]

theorem solids_of_not_solid {c : Char} (hc : isSolid c = false) (line : Nat) :
    solids line [c] = [] := by
  simp [solids, hc]

@[simp] theorem map_snd_solids (line : Nat) (t : Text) :
    (solids line t).map Prod.snd = t.filter isSolid := by
  simp [solids, Function.comp_def]

theorem map_snd_numbered (line : Nat) (t : Text) : (numbered line t).map Prod.snd = t := by
  induction t generalizing line with
  | nil => rfl
  | cons c t ih => rw [numbered, List.map_cons, ih]

theorem le_of_mem_numbered {line : Nat} {t : Text} {x : Nat × Char} (hx : x ∈ numbered line t) :
    line ≤ x.1 := by
  induction t generalizing line with
  | nil => cases hx
  | cons c t ih =>
    rw [numbered, List.mem_cons] at hx
    rcases hx with rfl | hx
    · exact Nat.le_refl line
    · refine Nat.le_trans ?_ (ih hx)
      split <;> omega

theorem sorted_numbered (line : Nat) (t : Text) :
    (numbered line t).Pairwise fun x y ↦ x.1 ≤ y.1 := by
  induction t generalizing line with
  | nil => exact List.Pairwise.nil
  | cons c t ih =>
    refine List.Pairwise.cons ?_ (ih _)
    intro x hx
    refine Nat.le_trans ?_ (le_of_mem_numbered hx)
    dsimp only
    split <;> omega

/-- Numbering a text line by line keeps the same characters. -/
theorem filter_numbered (line : Nat) (t : Text) :
    (numbered line t).filter (fun x ↦ isSolid x.2) =
      ((lines t).zipIdx line).flatMap fun l ↦ solids l.2 l.1 := by
  have hnewline : isSolid '\n' = false := by decide
  have hreturn : isSolid '\r' = false := by decide
  fun_induction lines t generalizing line with
  | case1 => rfl
  | case2 rest ih =>
    rw [List.zipIdx_cons, List.flatMap_cons, ← ih (line + 1)]
    simp [numbered, hnewline]
  | case3 rest ih =>
    rw [List.zipIdx_cons, List.flatMap_cons, ← ih (line + 1)]
    simp [numbered, hnewline, hreturn]
  | case4 c rest hc _ hlines ih =>
    have hrest := ih line
    rw [hlines, List.zipIdx_nil, List.flatMap_nil] at hrest
    rw [numbered, if_neg hc, List.filter_cons, hrest]
    by_cases hsolid : isSolid c = true
    · simp [hsolid, solids]
    · simp [hsolid, solids]
  | case5 c rest hc _ l more hlines ih =>
    have hrest := ih line
    rw [hlines, List.zipIdx_cons, List.flatMap_cons] at hrest
    rw [numbered, if_neg hc, List.filter_cons, hrest, List.zipIdx_cons, List.flatMap_cons,
      solids_cons line c l]
    by_cases hsolid : isSolid c = true
    · simp [hsolid, solids_singleton hsolid]
    · simp [hsolid, solids_of_not_solid (Bool.of_not_eq_true hsolid)]

end Text

/-! ## Pieces of the source -/

/-- The statement keeps the characters of this piece of a source, and starts where the piece
starts. -/
def Statement.Spells (st : Statement) (piece : List (Nat × Char)) : Prop :=
  piece.map Prod.snd = st.text.filter Text.isSolid ∧
    piece.head? = st.text.head?.map fun c ↦ (st.line, c)

theorem Statement.Spells.line_mem {st : Statement} {piece : List (Nat × Char)}
    (h : st.Spells piece) (hne : st.text ≠ []) : ∃ c, (st.line, c) ∈ piece := by
  obtain ⟨c, rest, htext⟩ := List.exists_cons_of_ne_nil hne
  refine ⟨c, List.mem_of_head? ?_⟩
  rw [h.2, htext]
  rfl

theorem Statement.line_mem_flatten {statements : List Statement}
    {pieces : List (List (Nat × Char))} (h : List.Forall₂ Statement.Spells statements pieces)
    (hne : ∀ st ∈ statements, st.text ≠ []) :
    ∀ st ∈ statements, ∃ c, (st.line, c) ∈ pieces.flatten := by
  induction h with
  | nil => simp
  | @cons st piece statements pieces hst _ ih =>
    intro t ht
    rw [List.flatten_cons]
    rcases List.mem_cons.mp ht with rfl | hmem
    · obtain ⟨c, hc⟩ := hst.line_mem (hne t ht)
      exact ⟨c, List.mem_append_left _ hc⟩
    · obtain ⟨c, hc⟩ := ih (fun t ht ↦ hne t (List.mem_cons_of_mem st ht)) t hmem
      exact ⟨c, List.mem_append_right _ hc⟩

/-- Statements whose pieces follow one another stand on lines that never decrease. -/
theorem Statement.sorted_of_spells {statements : List Statement}
    {pieces : List (List (Nat × Char))} (h : List.Forall₂ Statement.Spells statements pieces)
    (hne : ∀ st ∈ statements, st.text ≠ [])
    (hsorted : pieces.flatten.Pairwise fun x y ↦ x.1 ≤ y.1) :
    statements.Pairwise fun s t ↦ s.line ≤ t.line := by
  induction h with
  | nil => exact List.Pairwise.nil
  | @cons st piece statements pieces hst hrest ih =>
    rw [List.flatten_cons, List.pairwise_append] at hsorted
    obtain ⟨-, hlater, hbetween⟩ := hsorted
    obtain ⟨c, hc⟩ := hst.line_mem (hne st List.mem_cons_self)
    have hne' : ∀ t ∈ statements, t.text ≠ [] := fun t ht ↦ hne t (List.mem_cons_of_mem st ht)
    refine List.Pairwise.cons ?_ (ih hne' hlater)
    intro t ht
    obtain ⟨d, hd⟩ := Statement.line_mem_flatten hrest hne' t ht
    exact hbetween _ hc _ hd

namespace Scan

/-- The finished statements spell these pieces, the latest first, and the characters of the
statement being read are those of `opened`. -/
structure Accounts (s : Scan) (pieces : List (List (Nat × Char))) (opened : List (Nat × Char)) :
    Prop where
  finished : List.Forall₂ Statement.Spells s.finished pieces
  pending : opened.map Prod.snd = s.pending.reverse.filter Text.isSolid
  start : opened.head? = (Text.first? s.pending.reverse).map fun c ↦ (s.startLine, c)

/-- The scan has taken in these characters, in order. -/
def HasRead (s : Scan) (read : List (Nat × Char)) : Prop :=
  ∃ pieces opened, s.Accounts pieces opened ∧ read = pieces.reverse.flatten ++ opened

theorem hasRead_empty : ({} : Scan).HasRead [] :=
  ⟨[], [], ⟨.nil, rfl, rfl⟩, rfl⟩

/-! ## Single characters -/

theorem first?_pending_eq_none_iff {s : Scan} :
    Text.first? s.pending.reverse = none ↔ Text.allBlank s.pending = true := by
  rw [Text.first?_eq_none_iff, Text.allBlank_reverse]

theorem Accounts.push {s : Scan} {pieces : List (List (Nat × Char))} {opened : List (Nat × Char)}
    (h : s.Accounts pieces opened) (line : Nat) {c : Char}
    (hc : Text.allBlank s.pending = true → c ≠ ';') (quote : Option Char) (depth : Nat) :
    Accounts { s.push line c with quote, depth } pieces (opened ++ Text.solids line [c]) := by
  refine ⟨h.finished, ?_, ?_⟩
  · simp [Scan.push, h.pending]
  · rw [List.head?_append, h.start]
    simp only [Scan.push, List.reverse_cons, Text.first?_append]
    cases hfirst : Text.first? s.pending.reverse with
    | some d =>
      have hblank : Text.allBlank s.pending = false := by
        rw [← Bool.not_eq_true, ← first?_pending_eq_none_iff, hfirst]
        exact Option.some_ne_none d
      simp [hblank]
    | none =>
      have hblank := first?_pending_eq_none_iff.mp hfirst
      by_cases hb : Text.isBlank c = true
      · rw [Text.solids_of_not_solid (Text.isSolid_of_isBlank hb)]
        simp [Text.first?, hb]
      · have hsolid : Text.isSolid c = true := by simp [Text.isSolid, hb, hc hblank]
        rw [Text.solids_singleton hsolid, Text.first?_cons (Bool.of_not_eq_true hb)]
        simp [hblank]

theorem HasRead.push {s : Scan} {read : List (Nat × Char)} (h : s.HasRead read) (line : Nat)
    {c : Char} (hc : Text.allBlank s.pending = true → c ≠ ';') (quote : Option Char)
    (depth : Nat) : HasRead { s.push line c with quote, depth } (read ++ Text.solids line [c]) := by
  obtain ⟨pieces, opened, hacc, rfl⟩ := h
  exact ⟨pieces, _, hacc.push line hc quote depth, List.append_assoc ..⟩

/-! ## Ending a statement -/

/-- The statement being read may be about to be dropped as a lone semicolon, so its start counts
only if it is not. -/
theorem HasRead.flush {s : Scan} {pieces : List (List (Nat × Char))} {opened : List (Nat × Char)}
    (hfinished : List.Forall₂ Statement.Spells s.finished pieces)
    (hpending : opened.map Prod.snd = s.pending.reverse.filter Text.isSolid)
    (hstart : s.text ≠ [';'] →
      opened.head? = (Text.first? s.pending.reverse).map fun c ↦ (s.startLine, c)) :
    s.flush.HasRead (pieces.reverse.flatten ++ opened) := by
  have hsolid : opened.map Prod.snd = s.text.filter Text.isSolid := by
    rw [hpending, text, Text.filter_trim]
  unfold Scan.flush
  split
  · next hnone =>
    have hempty : opened = [] := by
      apply List.map_eq_nil_iff.mp
      rw [hsolid]
      rcases hnone with hnone | hnone <;> rw [hnone] <;> rfl
    exact ⟨pieces, [], ⟨hfinished, rfl, rfl⟩, by rw [hempty]⟩
  · next hsome =>
    have hspells : Statement.Spells ⟨s.text, s.startLine⟩ opened := by
      refine ⟨hsolid, ?_⟩
      rw [hstart fun heq ↦ hsome (Or.inr heq), text, Text.head?_trim]
    exact ⟨opened :: pieces, [], ⟨.cons hspells hfinished, rfl, rfl⟩, by simp⟩

theorem Accounts.flush {s : Scan} {pieces : List (List (Nat × Char))} {opened : List (Nat × Char)}
    (h : s.Accounts pieces opened) : s.flush.HasRead (pieces.reverse.flatten ++ opened) :=
  HasRead.flush h.finished h.pending fun _ ↦ h.start

theorem HasRead.flush_of_hasRead {s : Scan} {read : List (Nat × Char)} (h : s.HasRead read) :
    s.flush.HasRead read := by
  obtain ⟨pieces, opened, hacc, rfl⟩ := h
  exact hacc.flush

theorem HasRead.flush_push_semicolon {s : Scan} {read : List (Nat × Char)} (h : s.HasRead read)
    (line : Nat) : (s.push line ';').flush.HasRead (read ++ Text.solids line [';']) := by
  by_cases hblank : Text.allBlank s.pending = true
  · obtain ⟨pieces, opened, hacc, rfl⟩ := h
    have hfirst := first?_pending_eq_none_iff.mpr hblank
    have hopened : opened = [] := by
      rw [← List.head?_eq_none_iff, hacc.start, hfirst]
      rfl
    have htext : (s.push line ';').text = [';'] := by
      have hstart : Text.trimStart s.pending.reverse = [] := by
        rw [Text.trimStart, List.dropWhile_eq_nil_iff]
        simpa [Text.allBlank] using hblank
      rw [text, Scan.push, List.reverse_cons, Text.trim_append_singleton _ (by decide), hstart]
      rfl
    rw [List.append_assoc]
    refine HasRead.flush hacc.finished ?_ fun hne ↦ absurd htext hne
    simp [Scan.push, hacc.pending]
  · exact (h.push line (fun hb ↦ absurd hb hblank) s.quote s.depth).flush_of_hasRead

theorem HasRead.flushOpener {s : Scan} {read : List (Nat × Char)} (h : s.HasRead read)
    (hshaped : ∀ st ∈ s.finished, st.IsShaped) : s.flushOpener.HasRead read := by
  unfold Scan.flushOpener
  split
  · exact h.flush_of_hasRead
  · next previous earlier hfinished =>
    split
    · next hjoin =>
      obtain ⟨pieces, opened, hacc, rfl⟩ := h
      have hspelled := hacc.finished
      rw [hfinished] at hspelled
      cases hspelled with
      | @cons _ piece _ pieces hprevious hearlier =>
        have hbrace : opened.map Prod.snd = ['{'] := by
          rw [hacc.pending, ← Text.filter_trim, ← text, hjoin.1]
          rfl
        have hne := (hshaped previous (by simp [hfinished])).ne_nil
        obtain ⟨c, rest, htext⟩ := List.exists_cons_of_ne_nil hne
        have hspells : Statement.Spells ⟨previous.text ++ [' ', '{'], previous.line⟩
            (piece ++ opened) := by
          constructor
          · rw [List.map_append, hprevious.1, hbrace, List.filter_append]
            rfl
          · rw [List.head?_append, hprevious.2, htext]
            rfl
        exact ⟨(piece ++ opened) :: pieces, [], ⟨.cons hspells hearlier, rfl, rfl⟩, by simp⟩
    · exact h.flush_of_hasRead

/-! ## Reading lines -/

/-- Nothing is open while the statement being read is blank. -/
theorem Sound.clean_of_allBlank {s : Scan} (h : s.Sound) (hblank : Text.allBlank s.pending = true) :
    s.quote = none ∧ s.depth = 0 := by
  have hblanks : ∀ c ∈ s.pending, Text.isBlank c = true := by
    simpa [Text.allBlank] using hblank
  have hplain := openQuote?_append_blanks [] hblanks
  exact h.quote_eq none (by simpa [openQuote?] using hplain)

theorem HasRead.readPlain {s : Scan} {read : List (Nat × Char)} (h : s.HasRead read)
    (hsound : s.Sound) (line : Nat) (c : Char) (rest : Text) :
    (s.readPlain line c rest).HasRead (read ++ Text.solids line [c]) := by
  have hpush : c ≠ ';' → ∀ quote depth,
      HasRead { s.push line c with quote, depth } (read ++ Text.solids line [c]) :=
    fun hc ↦ h.push line fun _ ↦ hc
  generalize hnext : s.readPlain line c rest = next
  have hreads := hnext ▸ s.reads line c rest
  cases hreads with
  | quote hopens =>
    refine hpush ?_ _ _
    rintro rfl
    simp [opensQuote] at hopens
  | opening hc => exact hpush (by rw [hc]; decide) _ _
  | closing hc => exact hpush (by rw [hc]; decide) _ _
  | plain hopens hparen hend =>
    refine h.push line (fun hblank ↦ ?_) s.quote s.depth
    exact (hend (hsound.clean_of_allBlank hblank).2).1
  | semicolon hdepth hc =>
    rw [hc]
    exact h.flush_push_semicolon line
  | opener hdepth hc =>
    exact (hpush (by rw [hc]; decide) s.quote s.depth).flushOpener hsound.finished
  | closer hdepth hc =>
    refine (h.flush_of_hasRead.push line (fun _ ↦ ?_) _ _).flush_of_hasRead
    rw [hc]
    decide

theorem HasRead.comment {s : Scan} {read : List (Nat × Char)} (h : s.HasRead read) (line : Nat)
    {c : Char} {rest : Text} (hstart : s.startsComment c rest = true) :
    (s.comment line (c :: rest)).HasRead (read ++ Text.solids line (c :: rest)) := by
  rw [startsComment, Bool.and_eq_true] at hstart
  obtain ⟨pieces, opened, hacc, rfl⟩ := h
  have hopened : opened = [] := by
    rw [← List.head?_eq_none_iff, hacc.start, first?_pending_eq_none_iff.mpr hstart.1]
    rfl
  obtain ⟨tail, htail⟩ := List.isPrefixOf_iff_prefix.mp hstart.2
  have hc : c = '/' := (List.cons.inj htail).1.symm
  have hspells : Statement.Spells ⟨Text.trim (c :: rest), line⟩ (Text.solids line (c :: rest)) := by
    constructor
    · rw [Text.map_snd_solids, Text.filter_trim]
    · rw [Text.head?_trim, hc, Text.first?_cons (by decide), Text.solids_cons,
        Text.solids_singleton (by decide)]
      rfl
  exact ⟨_ :: pieces, [], ⟨.cons hspells hacc.finished, rfl, rfl⟩, by simp [hopened]⟩

theorem HasRead.readChars (line : Nat) (t : Text) {s : Scan} {read : List (Nat × Char)}
    (h : s.HasRead read) (hsound : s.Sound) :
    (Scan.readChars line t s).HasRead (read ++ Text.solids line t) := by
  have hquoted : ∀ {s : Scan} {q c : Char} {read : List (Nat × Char)}, s.HasRead read → s.Sound →
      s.quote = some q → ∀ quote,
        HasRead { s.push line c with quote } (read ++ Text.solids line [c]) := by
    intro s q c read h hsound hquote quote
    refine h.push line (fun hblank ↦ ?_) quote s.depth
    have hnone := (hsound.clean_of_allBlank hblank).1
    simp [hquote] at hnone
  fun_induction Scan.readChars line t s generalizing read with
  | case1 s => simpa using h
  | case2 s q hq => exact hquoted h hsound hq s.quote
  | case3 s q hq escaped rest ih =>
    have hbackslash := hquoted (c := '\\') h hsound hq s.quote
    have hnext := ih (hquoted hbackslash (hsound.push_backslash hq line) hq s.quote)
      (hsound.push_escaped hq line escaped)
    rw [Text.solids_cons, Text.solids_cons line escaped, ← List.append_assoc, ← List.append_assoc]
    exact hnext
  | case4 rest s q hq hbackslash ih =>
    rw [Text.solids_cons, ← List.append_assoc]
    exact ih (hquoted h hsound hq none) (hsound.push_closing hq line)
  | case5 c rest s q hq hbackslash hc ih =>
    rw [Text.solids_cons, ← List.append_assoc]
    exact ih (hquoted h hsound hq s.quote) (hsound.push_quoted hq line hc)
  | case6 c rest s hquote hstart => exact h.comment line hstart
  | case7 c rest s hquote hstart ih =>
    rw [Text.solids_cons, ← List.append_assoc]
    exact ih (h.readPlain hsound line c rest) (hsound.readPlain hquote line c rest)

theorem HasRead.endLine {s : Scan} {read : List (Nat × Char)} (h : s.HasRead read) :
    s.endLine.HasRead read := by
  unfold Scan.endLine
  split
  · split
    · exact h
    · obtain ⟨pieces, opened, hacc, rfl⟩ := h
      refine ⟨pieces, opened, ⟨hacc.finished, ?_, ?_⟩, rfl⟩
      · rw [List.reverse_cons, List.filter_append, hacc.pending]
        exact (List.append_nil _).symm
      · rw [List.reverse_cons, Text.first?_append, hacc.start]
        exact congrArg _ (Option.or_none).symm
  · exact h.flush_of_hasRead

theorem HasRead.readLine {s : Scan} {read : List (Nat × Char)} (h : s.HasRead read)
    (hsound : s.Sound) (line : Nat) (t : Text) :
    (s.readLine line t).HasRead (read ++ Text.solids line t) := by
  have htrim : Text.solids line (Text.trim t) = Text.solids line t := by
    rw [Text.solids, Text.filter_trim, Text.solids]
  rw [← htrim]
  exact (h.readChars line (Text.trim t) hsound).endLine

theorem HasRead.foldl_readLine (lines : List (Nat × Text)) {s : Scan} {read : List (Nat × Char)}
    (h : s.HasRead read) (hsound : s.Sound) :
    (lines.foldl (fun s l ↦ s.readLine l.1 l.2) s).HasRead
      (read ++ lines.flatMap fun l ↦ Text.solids l.1 l.2) := by
  induction lines generalizing s read with
  | nil => simpa using h
  | cons l lines ih =>
    rw [List.foldl_cons, List.flatMap_cons, ← List.append_assoc]
    exact ih (h.readLine hsound l.1 l.2) (hsound.readLine l.1 l.2)

end Scan

namespace Statement

/-- The pieces that the statements of numbered lines spell. -/
theorem exists_pieces {lines : List (Nat × Text)} {statements : List Statement}
    (h : scanLines lines = .ok statements) :
    ∃ pieces, List.Forall₂ Spells statements pieces ∧
      pieces.flatten = lines.flatMap fun l ↦ Text.solids l.1 l.2 := by
  have hread := Scan.hasRead_empty.foldl_readLine lines Scan.sound_empty
  unfold scanLines Scan.finish at h
  split at h
  · cases h
  · cases h
    obtain ⟨pieces, opened, hacc, heq⟩ := hread.flush_of_hasRead
    have hopened : opened = [] := by
      rw [← List.map_eq_nil_iff, hacc.pending, (Scan.flush_clean _).1]
      rfl
    refine ⟨pieces.reverse, List.rel_reverse hacc.finished, ?_⟩
    rw [hopened, List.append_nil, List.nil_append] at heq
    exact heq.symm

theorem map_snd_flatten_of_spells {statements : List Statement}
    {pieces : List (List (Nat × Char))} (h : List.Forall₂ Spells statements pieces) :
    pieces.flatten.map Prod.snd = (statements.flatMap text).filter Text.isSolid := by
  induction h with
  | nil => rfl
  | @cons st piece statements pieces hst _ ih =>
    rw [List.flatten_cons, List.map_append, hst.1, ih, List.flatMap_cons, List.filter_append]

theorem Spells.text_ne_semicolon {st : Statement} {piece : List (Nat × Char)}
    (h : st.Spells piece) : st.text ≠ [';'] := by
  intro htext
  obtain ⟨hsolid, hhead⟩ := h
  rw [htext] at hsolid hhead
  rw [List.map_eq_nil_iff.mp hsolid] at hhead
  cases hhead

/-- No character of a source is lost, repeated or moved by scanning, blanks and semicolons aside,
and every statement remembers the line of its first character. -/
theorem scan_content {source : Text} {statements : List Statement}
    (h : scan source = .ok statements) :
    (statements.flatMap text).filter Text.isSolid = source.filter Text.isSolid ∧
      (∀ s ∈ statements, s.text ≠ [] ∧ s.text.IsTrimmed ∧ s.text ≠ [';']) ∧
      (∃ pieces, List.Forall₂ Spells statements pieces ∧
        pieces.flatten = (Text.numbered 1 source).filter fun x ↦ Text.isSolid x.2) ∧
      statements.Pairwise fun s t ↦ s.line ≤ t.line := by
  have hshaped := isShaped_of_scan h
  obtain ⟨pieces, hspells, hflatten⟩ := exists_pieces h
  have hnumbered : pieces.flatten = (Text.numbered 1 source).filter fun x ↦ Text.isSolid x.2 := by
    rw [hflatten, Text.filter_numbered, List.flatMap_map]
    rfl
  refine ⟨?_, ?_, ⟨pieces, hspells, hnumbered⟩, ?_⟩
  · rw [← map_snd_flatten_of_spells hspells, hnumbered]
    conv_rhs => rw [← Text.map_snd_numbered 1 source, List.filter_map]
    rfl
  · intro s hs
    refine ⟨(hshaped s hs).ne_nil, (hshaped s hs).trimmed, ?_⟩
    have hne := (List.forall₂_and_left (p := fun st ↦ st.text ≠ [';']) _ _).mp
      (hspells.imp fun _ _ hst ↦ ⟨hst.text_ne_semicolon, hst⟩)
    exact hne.1 s hs
  · refine sorted_of_spells hspells (fun s hs ↦ (hshaped s hs).ne_nil) ?_
    rw [hnumbered]
    exact (Text.sorted_numbered 1 source).filter _

theorem scan_content_joined :
    ∃ statements : List Statement,
      scan "div\n\x7b\n;\ncolor: red\n  blue; // x\n\x7d".toList = .ok statements ∧
      statements.map line = [1, 4, 5, 6] ∧
      (statements.flatMap text).filter Text.isSolid = "div\x7bcolor:redblue//x\x7d".toList ∧
      (∀ s ∈ statements, s.text ≠ [] ∧ s.text.IsTrimmed ∧ s.text ≠ [';']) ∧
      statements.Pairwise fun s t ↦ s.line ≤ t.line := by
  have hscan : scan "div\n\x7b\n;\ncolor: red\n  blue; // x\n\x7d".toList =
      .ok [⟨"div \x7b".toList, 1⟩, ⟨"color: red blue;".toList, 4⟩, ⟨"// x".toList, 5⟩,
        ⟨"\x7d".toList, 6⟩] := by
    cbv
  obtain ⟨hsolid, hshape, -, hsorted⟩ := scan_content hscan
  exact ⟨_, hscan, rfl, hsolid.trans (by decide), hshape, hsorted⟩

end Statement

end StyledMarkup
