import StyledMarkup.Proofs.Statement.Rescan

/-!
# What statements take over from the lines

The text of a statement is put together from parts of physical lines, with a space between two
lines. So a property that passes from a text to its parts, and from two texts to the two joined by a
space, holds of every statement once it holds of every line.
-/

namespace StyledMarkup

namespace Text

structure IsLocal (P : Text → Prop) : Prop where
  part {t u : Text} (hpart : u <:+: t) (ht : P t) : P u
  join {t u : Text} (ht : P t) (hu : P u) : P (t ++ ' ' :: u)

theorem trim_isInfix (t : Text) : trim t <:+: t := by
  obtain ⟨before, after, heq, -, -⟩ := exists_trim_eq t
  exact ⟨before, after, heq.symm⟩

theorem isLocal_not_mem {c : Char} (hc : c ≠ ' ') : IsLocal (c ∉ ·) where
  part hpart ht hmem := ht (hpart.subset hmem)
  join ht hu := by simp [ht, hu, hc]

/-- A word in a joined text stands in one of the two texts. -/
theorem isLocal_not_isInfix {word : Text} (hspace : ' ' ∉ word) : IsLocal (¬ word <:+: ·) where
  part hpart ht hword := ht (hword.trans hpart)
  join {t u} ht hu hword := by
    obtain ⟨before, after, heq⟩ := hword
    rw [List.append_assoc] at heq
    rcases List.append_eq_append_iff.mp heq with ⟨mid, hbefore, hmid⟩ | ⟨mid, hbefore, hmid⟩
    · rcases List.append_eq_append_iff.mp hmid with ⟨rest, hrest, -⟩ | ⟨rest, hrest, hafter⟩
      · exact ht ⟨before, rest, by rw [hbefore, hrest, List.append_assoc]⟩
      · cases rest with
        | nil => exact ht ⟨before, [], by simp [hbefore, hrest]⟩
        | cons c rest =>
          obtain ⟨rfl, -⟩ := List.cons.inj hafter
          exact hspace (by simp [hrest])
    · cases mid with
      | nil =>
        cases word with
        | nil => exact ht ⟨t, [], by simp⟩
        | cons c word =>
          obtain ⟨rfl, -⟩ := List.cons.inj hmid
          exact hspace List.mem_cons_self
      | cons c mid =>
        obtain ⟨-, hmid⟩ := List.cons.inj hmid
        exact hu ⟨mid, after, (List.append_assoc mid word after).trans hmid.symm⟩

theorem IsLocal.and {P Q : Text → Prop} (hP : IsLocal P) (hQ : IsLocal Q) :
    IsLocal fun t ↦ P t ∧ Q t where
  part hpart ht := ⟨hP.part hpart ht.1, hQ.part hpart ht.2⟩
  join ht hu := ⟨hP.join ht.1 hu.1, hQ.join ht.2 hu.2⟩

theorem isPrefix_of_lines_eq {t line : Text} {more : List Text} (h : lines t = line :: more) :
    line <+: t := by
  fun_induction lines t generalizing line more with
  | case1 => cases h
  | case2 rest ih =>
    cases h
    exact List.nil_prefix
  | case3 rest ih =>
    cases h
    exact List.nil_prefix
  | case4 c rest _ _ hnil ih =>
    cases h
    simp
  | case5 c rest _ _ line' more' hlines ih =>
    cases h
    simpa using ih hlines

theorem isInfix_of_mem_lines {t l : Text} (h : l ∈ lines t) : l <:+: t := by
  fun_induction lines t with
  | case1 => cases h
  | case2 rest ih =>
    rcases List.mem_cons.mp h with rfl | h
    · exact List.nil_infix
    · exact (ih h).trans (List.suffix_cons _ _).isInfix
  | case3 rest ih =>
    rcases List.mem_cons.mp h with rfl | h
    · exact List.nil_infix
    · exact (ih h).trans ((List.suffix_cons _ _).trans (List.suffix_cons _ _)).isInfix
  | case4 c rest _ _ hnil ih =>
    obtain rfl := List.mem_singleton.mp h
    exact (List.prefix_append [c] rest).isInfix
  | case5 c rest _ _ line more hlines ih =>
    rcases List.mem_cons.mp h with rfl | h
    · exact (List.prefix_cons_inj c |>.mpr (isPrefix_of_lines_eq hlines)).isInfix
    · exact (ih (hlines ▸ List.mem_cons_of_mem _ h)).trans (List.suffix_cons _ _).isInfix

theorem newline_not_mem_of_mem_lines {t l : Text} (h : l ∈ lines t) : '\n' ∉ l := by
  fun_induction lines t generalizing l with
  | case1 => cases h
  | case2 rest ih =>
    rcases List.mem_cons.mp h with rfl | h
    · exact List.not_mem_nil
    · exact ih h
  | case3 rest ih =>
    rcases List.mem_cons.mp h with rfl | h
    · exact List.not_mem_nil
    · exact ih h
  | case4 c rest hnewline _ hnil ih =>
    obtain rfl := List.mem_singleton.mp h
    simpa using fun heq : '\n' = c ↦ hnewline heq.symm
  | case5 c rest hnewline _ line more hlines ih =>
    rw [hlines] at ih
    rcases List.mem_cons.mp h with rfl | h
    · have hline := ih List.mem_cons_self
      simpa [hline] using fun heq : '\n' = c ↦ hnewline heq.symm
    · exact ih (List.mem_cons_of_mem _ h)

end Text

namespace Scan

variable {P : Text → Prop} (hP : Text.IsLocal P)

/-- Every finished statement has the property, and so does what is pending together with the rest of
its line. -/
structure Keeps (P : Text → Prop) (s : Scan) (rest : Text) : Prop where
  finished : ∀ st ∈ s.finished, P st.text
  pending : P (s.pending.reverse ++ rest)

section Characters

variable {s : Scan} {rest : Text} (line : Nat)

theorem Keeps.push {c : Char} (h : Keeps P s (c :: rest)) {s' : Scan}
    (hfinished : s'.finished = s.finished) (hpending : s'.pending = c :: s.pending) :
    Keeps P s' rest := by
  refine ⟨hfinished ▸ h.finished, ?_⟩
  rw [hpending, List.reverse_cons, List.append_assoc]
  exact h.pending

include hP

theorem Keeps.text (h : Keeps P s rest) : P s.text :=
  hP.part ((Text.trim_isInfix _).trans (List.prefix_append _ rest).isInfix) h.pending

theorem Keeps.flush (h : Keeps P s rest) : Keeps P s.flush rest := by
  have hrest : P rest := hP.part (List.suffix_append _ rest).isInfix h.pending
  unfold Scan.flush
  split
  · exact ⟨h.finished, hrest⟩
  · refine ⟨?_, hrest⟩
    simpa using ⟨h.text hP, h.finished⟩

theorem Keeps.flushOpener (h : Keeps P s rest) : Keeps P s.flushOpener rest := by
  unfold Scan.flushOpener
  split
  · exact h.flush hP
  · next previous earlier hfinished =>
    split
    · next hjoin =>
      obtain ⟨hprevious, hearlier⟩ : P previous.text ∧ ∀ st ∈ earlier, P st.text := by
        simpa [hfinished] using h.finished
      have hbrace : P ['{'] := hjoin.1 ▸ h.text hP
      refine ⟨?_, hP.part (List.suffix_append _ rest).isInfix h.pending⟩
      simpa using ⟨hP.join hprevious hbrace, hearlier⟩
    · exact h.flush hP

theorem Keeps.readPlain {c : Char} (h : Keeps P s (c :: rest)) :
    Keeps P (s.readPlain line c rest) rest := by
  have hpush : Keeps P (s.push line c) rest := h.push rfl rfl
  have hcloser : Keeps P (s.flush.push line c) rest := (h.flush hP).push rfl rfl
  have hread := reads s line c rest
  generalize s.readPlain line c rest = s' at hread
  cases hread with
  | quote => exact h.push rfl rfl
  | opening => exact h.push rfl rfl
  | closing => exact h.push rfl rfl
  | plain => exact hpush
  | semicolon => exact hpush.flush hP
  | opener => exact hpush.flushOpener hP
  | closer => exact hcloser.flush hP

theorem Keeps.readChars {t : Text} (h : Keeps P s t) : Keeps P (readChars line t s) [] := by
  fun_induction Scan.readChars line t s with
  | case1 s => exact h
  | case2 s q hq => exact h.push rfl rfl
  | case3 s q hq escaped rest ih =>
    have hbackslash : Keeps P (s.push line '\\') (escaped :: rest) := h.push rfl rfl
    exact ih (hbackslash.push rfl rfl)
  | case4 rest s q hq hbackslash ih => exact ih (h.push rfl rfl)
  | case5 c rest s q hq hbackslash hc ih => exact ih (h.push rfl rfl)
  | case6 c rest s hquote hstart =>
    have hcomment : P (Text.trim (c :: rest)) :=
      hP.part ((Text.trim_isInfix _).trans (List.suffix_append _ _).isInfix) h.pending
    refine ⟨?_, hP.part List.nil_infix h.pending⟩
    simpa [Scan.comment] using ⟨hcomment, h.finished⟩
  | case7 c rest s hquote hstart ih => exact ih (h.readPlain hP line)

end Characters

/-- The same between two lines, where what is pending ends in the space that joins it. -/
structure KeepsLines (P : Text → Prop) (s : Scan) : Prop where
  finished : ∀ st ∈ s.finished, P st.text
  pending : s.pending = [] ∨ ∃ before, s.pending = ' ' :: before ∧ P before.reverse

include hP

theorem KeepsLines.keeps {s : Scan} (h : KeepsLines P s) {t : Text} (ht : P t) : Keeps P s t := by
  refine ⟨h.finished, ?_⟩
  rcases h.pending with hnil | ⟨before, hbefore, hP'⟩
  · simpa [hnil] using ht
  · simpa [hbefore] using hP.join hP' ht

theorem Keeps.endLine {s : Scan} (h : Keeps P s []) : KeepsLines P s.endLine := by
  unfold Scan.endLine
  split
  · split
    · next hnil => exact ⟨h.finished, Or.inl hnil⟩
    · exact ⟨h.finished, Or.inr ⟨_, rfl, by simpa using h.pending⟩⟩
  · exact ⟨(h.flush hP).finished, Or.inl (flush_clean s).1⟩

theorem KeepsLines.readLine {s : Scan} (h : KeepsLines P s) (line : Nat) {t : Text} (ht : P t) :
    KeepsLines P (s.readLine line t) :=
  ((h.keeps hP (hP.part (Text.trim_isInfix t) ht)).readChars hP line).endLine hP

theorem KeepsLines.foldl_readLine {lines : List (Nat × Text)} (hlines : ∀ l ∈ lines, P l.2)
    {s : Scan} (h : KeepsLines P s) :
    KeepsLines P (lines.foldl (fun s l ↦ s.readLine l.1 l.2) s) := by
  induction lines generalizing s with
  | nil => exact h
  | cons l lines ih =>
    rw [List.forall_mem_cons] at hlines
    exact ih hlines.2 (h.readLine hP l.1 hlines.1)

theorem KeepsLines.flush {s : Scan} (h : KeepsLines P s) : ∀ st ∈ s.flush.finished, P st.text := by
  unfold Scan.flush
  split
  · exact h.finished
  · next hne =>
    have htext : P s.text := by
      rcases h.pending with hnil | ⟨before, hbefore, hP'⟩
      · simp [Scan.text, hnil, Text.trim, Text.trimStart, Text.trimEnd] at hne
      · have htrim : s.text = Text.trim before.reverse := by
          rw [Scan.text, hbefore, List.reverse_cons, Text.trim_append_blank _ (by decide)]
        exact htrim ▸ hP.part (Text.trim_isInfix _) hP'
    simpa using ⟨htext, h.finished⟩

end Scan

namespace Statement

variable {P : Text → Prop} (hP : Text.IsLocal P) {statements : List Statement}
include hP

theorem forall_of_scanLines {lines : List (Nat × Text)} (hlines : ∀ l ∈ lines, P l.2)
    (h : scanLines lines = .ok statements) : ∀ s ∈ statements, P s.text := by
  have hread := Scan.KeepsLines.foldl_readLine hP hlines (s := {}) ⟨by simp, Or.inl rfl⟩
  unfold scanLines Scan.finish at h
  split at h
  · cases h
  · cases h
    simpa using hread.flush hP

omit hP in
theorem newline_not_mem_of_scan {source : Text} (h : scan source = .ok statements) :
    ∀ s ∈ statements, '\n' ∉ s.text := by
  refine forall_of_scanLines (Text.isLocal_not_mem (by decide)) ?_ h
  intro l hl
  obtain ⟨l', hl', rfl⟩ := List.mem_map.mp hl
  exact Text.newline_not_mem_of_mem_lines (List.fst_mem_of_mem_zipIdx hl')

end Statement

end StyledMarkup
