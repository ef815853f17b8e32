import StyledMarkup.Text.Blank
import StyledMarkup.Text.Alphanumeric

/-!
# Texts

A text is a list of characters. This module has the operations that all readers of the language
share: trimming blanks at either end, cutting a known piece off either end, splitting at the first
occurrence of a character, cutting into physical lines, and replacing a first occurrence.
-/

namespace StyledMarkup

/-- A text, character by character. -/
abbrev Text := List Char

namespace Text

/-! ## Trimming -/

def trimStart (t : Text) : Text :=
  t.dropWhile isBlank

def trimEnd (t : Text) : Text :=
  (t.reverse.dropWhile isBlank).reverse

def trim (t : Text) : Text :=
  trimEnd (trimStart t)

def allBlank (t : Text) : Bool :=
  t.all isBlank

/-! ## Known pieces at either end -/

/-- What follows `head` in `t`, when `t` starts with `head`. -/
def after? : (head t : Text) → Option Text
  | [], t => some t
  | _ :: _, [] => none
  | h :: hs, c :: cs => if h = c then after? hs cs else none

/-- What precedes `tail` in `t`, when `t` ends with `tail`. -/
def before? (tail t : Text) : Option Text :=
  (after? tail.reverse t.reverse).map List.reverse

/-- The text without `head` at its start, if it stands there. -/
def dropHead (head t : Text) : Text :=
  (after? head t).getD t

/-- The text without `tail` at its end, if it stands there. -/
def dropTail (tail t : Text) : Text :=
  (before? tail t).getD t

def endsWith (t : Text) (c : Char) : Bool :=
  t.getLast? == some c

/-! ## Splitting -/

/-- The parts before and after the first `c`. -/
def splitAt? (c : Char) : Text → Option (Text × Text)
  | [] => none
  | d :: ds =>
    if d = c then some ([], ds)
    else (splitAt? c ds).map fun parts ↦ (d :: parts.1, parts.2)

/-- The parts before and after the last `c`. -/
def splitAtLast? (c : Char) (t : Text) : Option (Text × Text) :=
  (splitAt? c t.reverse).map fun parts ↦ (parts.2.reverse, parts.1.reverse)

/-- The physical lines. A line ends at a newline, which is not part of it, and neither is one
carriage return before that newline. Nothing follows the last newline unless a character does. -/
def lines : Text → List Text
  | [] => []
  | '\n' :: rest => [] :: lines rest
  | '\r' :: '\n' :: rest => [] :: lines rest
  | c :: rest =>
    match lines rest with
    | [] => [[c]]
    | line :: more => (c :: line) :: more

/-! ## Searching -/

/-- The parts before and after the first occurrence of `piece`. -/
def splitAround? (piece : Text) : Text → Option (Text × Text)
  | [] => (after? piece []).map fun rest ↦ ([], rest)
  | c :: cs =>
    match after? piece (c :: cs) with
    | some rest => some ([], rest)
    | none => (splitAround? piece cs).map fun parts ↦ (c :: parts.1, parts.2)

/-- The text with the first occurrence of `piece` replaced. -/
def replaceFirst (piece replacement t : Text) : Text :=
  match splitAround? piece t with
  | some (before, rest) => before ++ replacement ++ rest
  | none => t

/-! ## Small facts -/

theorem after?_eq_some_iff {head t rest : Text} : after? head t = some rest ↔ t = head ++ rest := by
  induction head generalizing t with
  | nil => simp [after?, eq_comm]
  | cons h hs ih =>
    cases t with
    | nil => simp [after?]
    | cons c cs =>
      by_cases hc : h = c
      · simp [after?, hc, ih]
      · simp [after?, hc, Ne.symm hc]

theorem before?_eq_some_iff {tail t start : Text} :
    before? tail t = some start ↔ t = start ++ tail := by
  simp only [before?, Option.map_eq_some_iff, after?_eq_some_iff]
  constructor
  · rintro ⟨r, hr, rfl⟩
    simpa using congrArg List.reverse hr
  · rintro rfl
    exact ⟨start.reverse, by simp, by simp⟩

theorem splitAt?_eq_some_iff {c : Char} {t before rest : Text} :
    splitAt? c t = some (before, rest) ↔ t = before ++ c :: rest ∧ c ∉ before := by
  induction t generalizing before with
  | nil => simp [splitAt?]
  | cons d ds ih =>
    by_cases hd : d = c
    · subst hd
      cases before with
      | nil => simp [splitAt?, eq_comm]
      | cons b bs => simp +contextual [splitAt?, eq_comm]
    · cases before with
      | nil => simp [splitAt?, hd]
      | cons b bs =>
        simp only [splitAt?, hd, if_false, Option.map_eq_some_iff, Prod.mk.injEq, List.cons.injEq,
          List.cons_append, List.mem_cons, not_or, Prod.exists]
        constructor
        · rintro ⟨x, y, hxy, ⟨rfl, rfl⟩, rfl⟩
          obtain ⟨rfl, hx⟩ := ih.1 hxy
          exact ⟨⟨rfl, rfl⟩, fun h ↦ hd h.symm, hx⟩
        · rintro ⟨⟨rfl, rfl⟩, _, hb⟩
          exact ⟨bs, rest, ih.2 ⟨rfl, hb⟩, ⟨rfl, rfl⟩, rfl⟩

end Text

end StyledMarkup
