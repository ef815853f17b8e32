import Mathlib.Data.List.TakeWhile
import StyledMarkup.Text.Basic

/-!
# Runs and trimmed texts

Readers take runs of characters of one kind, and a run ends where something else follows. Every
statement that leaves the scanner is trimmed: it neither starts nor ends with a blank. Such a text
is its own trimming, so the ends that readers look at after trimming are its own ends.
-/

namespace StyledMarkup.Text

/-! ## Runs -/

section Runs

variable {p : Char → Bool} {run rest : Text}

/-- A run is read to its end when something else follows. -/
theorem takeWhile_run (hrun : ∀ c ∈ run, p c = true) (hrest : ∀ c ∈ rest.head?, p c = false) :
    (run ++ rest).takeWhile p = run := by
  rw [List.takeWhile_append_of_pos hrun]
  cases rest with
  | nil => simp
  | cons c rest => simp [hrest c rfl]

theorem dropWhile_run (hrun : ∀ c ∈ run, p c = true) (hrest : ∀ c ∈ rest.head?, p c = false) :
    (run ++ rest).dropWhile p = rest := by
  rw [List.dropWhile_append_of_pos hrun]
  cases rest with
  | nil => simp
  | cons c rest => simp [hrest c rfl]

theorem head?_dropWhile (p : Char → Bool) (t : Text) :
    ∀ c ∈ (t.dropWhile p).head?, p c = false := by
  intro c hc
  have hstop := List.head?_dropWhile_not p t
  simp_all

end Runs

theorem endsWith_iff {t : Text} {c : Char} : endsWith t c = true ↔ ∃ start, t = start ++ [c] := by
  simp only [endsWith, beq_iff_eq]
  exact List.getLast?_eq_some_iff

/-- The last character of a text is the last one after any other character in it. -/
theorem exists_concat_of_endsWith {front rest : Text} {c d : Char}
    (h : endsWith (front ++ c :: rest) d = true) (hne : c ≠ d) : ∃ start, rest = start ++ [d] := by
  simp only [endsWith, List.getLast?_append, List.getLast?_cons, Option.some_or, beq_iff_eq,
    Option.some.injEq] at h
  cases hlast : rest.getLast? with
  | none => exact absurd (by simpa [hlast] using h) hne
  | some e =>
    obtain rfl : e = d := by simpa [hlast] using h
    exact List.getLast?_eq_some_iff.mp hlast

theorem after?_eq_none_of_head {head t : Text} {c d : Char} (hhead : head.head? = some c)
    (ht : t.head? = some d) (hne : d ≠ c) : after? head t = none := by
  apply Option.eq_none_iff_forall_ne_some.mpr
  intro rest hrest
  rw [after?_eq_some_iff.mp hrest, List.head?_append, hhead, Option.some_or,
    Option.some.injEq] at ht
  exact hne ht.symm

theorem dropTail_singleton (c : Char) (t : Text) :
    dropTail [c] t = if t.endsWith c then t.dropLast else t := by
  split
  · next hlast =>
    obtain ⟨start, rfl⟩ := endsWith_iff.mp hlast
    rw [dropTail, before?_eq_some_iff.mpr rfl, Option.getD_some, List.dropLast_concat]
  · next hlast =>
    have hnone : before? [c] t = none := by
      rw [Option.eq_none_iff_forall_ne_some]
      intro start hstart
      exact hlast (endsWith_iff.mpr ⟨start, before?_eq_some_iff.mp hstart⟩)
    rw [dropTail, hnone, Option.getD_none]

/-! ## Blanks at the ends -/

theorem trimEnd_append_singleton (t : Text) {c : Char} (hc : isBlank c = false) :
    trimEnd (t ++ [c]) = t ++ [c] := by
  simp [trimEnd, hc]

theorem trimStart_append_singleton (t : Text) {c : Char} (hc : isBlank c = false) :
    trimStart (t ++ [c]) = trimStart t ++ [c] := by
  induction t with
  | nil => simp [trimStart, hc]
  | cons d t ih =>
    by_cases hd : isBlank d = true
    · simpa [trimStart, hd] using ih
    · simp [trimStart, hd]

theorem trim_append_singleton (t : Text) {c : Char} (hc : isBlank c = false) :
    trim (t ++ [c]) = trimStart t ++ [c] := by
  rw [trim, trimStart_append_singleton t hc, trimEnd_append_singleton _ hc]

theorem exists_trimStart_eq (t : Text) :
    ∃ blanks, t = blanks ++ trimStart t ∧ ∀ c ∈ blanks, isBlank c = true := by
  refine ⟨t.takeWhile isBlank, (List.takeWhile_append_dropWhile (p := isBlank)).symm, ?_⟩
  intro c hc
  exact List.mem_takeWhile_imp hc

theorem exists_trimEnd_eq (t : Text) :
    ∃ blanks, t = trimEnd t ++ blanks ∧ ∀ c ∈ blanks, isBlank c = true := by
  refine ⟨(t.reverse.takeWhile isBlank).reverse, ?_, ?_⟩
  · rw [trimEnd, ← List.reverse_append, List.takeWhile_append_dropWhile, List.reverse_reverse]
  · intro c hc
    exact List.mem_takeWhile_imp (List.mem_reverse.mp hc)

/-- Only blanks stand before and after what is left by trimming. -/
theorem exists_trim_eq (t : Text) :
    ∃ before after, t = before ++ trim t ++ after ∧
      (∀ c ∈ before, isBlank c = true) ∧ ∀ c ∈ after, isBlank c = true := by
  obtain ⟨before, hbefore, hbeforeBlank⟩ := exists_trimStart_eq t
  obtain ⟨after, hafter, hafterBlank⟩ := exists_trimEnd_eq (trimStart t)
  refine ⟨before, after, ?_, hbeforeBlank, hafterBlank⟩
  rw [List.append_assoc, trim, ← hafter]
  exact hbefore

theorem head?_trim_cons {c : Char} (hc : isBlank c = false) (t : Text) :
    (trim (c :: t)).head? = some c := by
  obtain ⟨before, after, heq, hbefore, hafter⟩ := exists_trim_eq (c :: t)
  cases before with
  | cons d before =>
    obtain ⟨rfl, -⟩ := List.cons.inj heq
    have hblank := hbefore c (by simp)
    simp [hc] at hblank
  | nil =>
    cases htrim : trim (c :: t) with
    | cons d rest =>
      rw [htrim] at heq
      rw [List.head?_cons, (List.cons.inj heq).1]
    | nil =>
      have hblank := hafter c (by simp [htrim] at heq; simp [← heq])
      simp [hc] at hblank

/-! ## Trimmed texts -/

/-- Neither end of the text is a blank. -/
def IsTrimmed (t : Text) : Prop :=
  (∀ c, t.head? = some c → isBlank c = false) ∧ ∀ c, t.getLast? = some c → isBlank c = false

theorem head?_trimStart_not_blank (t : Text) {c : Char} (h : (trimStart t).head? = some c) :
    isBlank c = false := by
  have hnot := List.head?_dropWhile_not isBlank t
  rw [show t.dropWhile isBlank = trimStart t from rfl, h] at hnot
  exact hnot

theorem isTrimmed_trim (t : Text) : IsTrimmed (trim t) := by
  constructor
  · intro c hc
    obtain ⟨blanks, hblanks, -⟩ := exists_trimEnd_eq (trimStart t)
    apply head?_trimStart_not_blank t
    rw [hblanks, List.head?_append, show trimEnd (trimStart t) = trim t from rfl, hc]
    rfl
  · intro c hc
    have hlast : (trimStart (trimStart t).reverse).head? = some c := by
      simpa [trim, trimEnd, trimStart] using hc
    exact head?_trimStart_not_blank _ hlast

theorem IsTrimmed.trimEnd_eq {t : Text} (h : IsTrimmed t) : trimEnd t = t := by
  rcases List.eq_nil_or_concat t with rfl | ⟨start, c, rfl⟩
  · rfl
  · rw [List.concat_eq_append] at h ⊢
    exact trimEnd_append_singleton start (h.2 c (by simp))

theorem IsTrimmed.trim_eq {t : Text} (h : IsTrimmed t) : trim t = t := by
  have hstart : trimStart t = t := by
    cases t with
    | nil => rfl
    | cons c t => simp [trimStart, h.1 c rfl]
  rw [trim, hstart, h.trimEnd_eq]

theorem not_mem_of_blanks {t : Text} {c : Char} (h : ∀ d ∈ t, isBlank d = true)
    (hc : isBlank c = false) : c ∉ t := by
  intro hmem
  rw [h c hmem] at hc
  cases hc

/-- The text `u` is `t` with blanks around it. -/
def Pads (t u : Text) : Prop :=
  ∃ before after, allBlank before = true ∧ allBlank after = true ∧ u = before ++ t ++ after

/-- Trimming takes off what stands around a trimmed text. -/
theorem IsTrimmed.trim_of_pads {t u : Text} (ht : IsTrimmed t) (h : Pads t u) : trim u = t := by
  obtain ⟨before, after, hbefore, hafter, rfl⟩ := h
  rw [allBlank, List.all_eq_true] at hbefore hafter
  have hstart : trimStart (before ++ t ++ after) = trimStart (t ++ after) := by
    rw [trimStart, List.append_assoc, List.dropWhile_append_of_pos hbefore]
    rfl
  have hend : trimEnd (t ++ after) = t := by
    rw [trimEnd, List.reverse_append,
      List.dropWhile_append_of_pos fun c hc ↦ hafter c (List.mem_reverse.mp hc)]
    exact ht.trimEnd_eq
  rw [trim, hstart]
  cases t with
  | nil =>
    rw [List.nil_append] at hend ⊢
    rw [trimStart, List.dropWhile_eq_nil_iff.mpr hafter]
    rfl
  | cons c t =>
    have hc : isBlank c = false := ht.1 c rfl
    rw [trimStart, List.cons_append, List.dropWhile_cons_of_neg (by simp [hc])]
    exact hend

theorem isTrimmed_append_singleton {t : Text} {c : Char}
    (ht : ∃ d, t.head? = some d ∧ isBlank d = false) (hc : isBlank c = false) :
    IsTrimmed (t ++ [c]) := by
  obtain ⟨d, hd, hblank⟩ := ht
  constructor
  · intro e he
    rw [List.head?_append, hd, Option.some_or, Option.some.injEq] at he
    exact he ▸ hblank
  · intro e he
    rw [List.getLast?_concat, Option.some.injEq] at he
    exact he ▸ hc

end StyledMarkup.Text
