import Mathlib.Data.List.Chain
import StyledMarkup.Proofs.Token

/-!
# The pieces of a text

A text is cut at its dollar signs. A dollar sign takes all token characters after it, and what
stands in between goes on to the next dollar sign. Main statement: there is exactly one way to cut a
text into such pieces, and replacing works piece by piece. So what no token stands for stays as it
is, and two texts can be replaced apart unless the second one extends the end of the first.
-/

namespace StyledMarkup.Token

variable {lookup : Text → Option Text} {t piece name : Text} {cut : List Text}

/-! ## Pieces -/

/-- A dollar sign and token characters after it, perhaps none. -/
def IsToken (piece : Text) : Prop :=
  piece.head? = some '$' ∧ ∀ c ∈ piece.tail, isTokenChar c = true

instance (piece : Text) : Decidable (IsToken piece) :=
  inferInstanceAs (Decidable (_ ∧ _))

/-- Something without a dollar sign. -/
def IsPlain (piece : Text) : Prop :=
  piece ≠ [] ∧ '$' ∉ piece

instance (piece : Text) : Decidable (IsPlain piece) :=
  inferInstanceAs (Decidable (_ ∧ _))

/-- The text is cut into tokens and plain pieces, none of which can be made longer: no token
character follows a token, and only a token follows a plain piece. -/
structure IsCut (cut : List Text) (t : Text) : Prop where
  flatten_eq : cut.flatten = t
  cases : ∀ piece ∈ cut, IsToken piece ∨ IsPlain piece
  maximal : cut.IsChain fun piece next ↦
    (IsToken piece → ∀ c ∈ next.head?, isTokenChar c = false) ∧ (IsPlain piece → IsToken next)

/-- What a piece becomes. A dollar sign alone is not looked up. -/
def replaced (lookup : Text → Option Text) (piece : Text) : Text :=
  if IsToken piece ∧ 1 < piece.length then (lookup piece).getD piece else piece

theorem isToken_cons (h : ∀ c ∈ name, isTokenChar c = true) : IsToken ('$' :: name) :=
  ⟨rfl, h⟩

theorem IsToken.exists_eq (h : IsToken piece) :
    ∃ name, piece = '$' :: name ∧ ∀ c ∈ name, isTokenChar c = true := by
  obtain ⟨name, rfl⟩ := List.head?_eq_some_iff.mp h.1
  exact ⟨name, rfl, h.2⟩

theorem IsPlain.not_isToken (h : IsPlain piece) : ¬IsToken piece :=
  fun htoken ↦ h.2 (List.mem_of_head? htoken.1)

theorem replaced_of_isPlain (h : IsPlain piece) : replaced lookup piece = piece :=
  if_neg fun htoken ↦ h.not_isToken htoken.1

theorem replaced_cons (h : ∀ c ∈ name, isTokenChar c = true) :
    replaced lookup ('$' :: name) = replacement lookup name := by
  cases name with
  | nil => simp [replaced, replacement]
  | cons c name => simp [replaced, replacement, isToken_cons h]

theorem replaced_eq_self (h : IsToken piece ∧ 1 < piece.length → lookup piece = none) :
    replaced lookup piece = piece := by
  rw [replaced]
  split
  · next htoken => rw [h htoken, Option.getD_none]
  · rfl

/-! ## Cutting a text -/

/-- The pieces of a text, from left to right. -/
def pieces : Text → List Text
  | [] => []
  | c :: rest =>
    if c = '$' then
      ('$' :: rest.takeWhile isTokenChar) :: pieces (rest.dropWhile isTokenChar)
    else (c :: rest.takeWhile (· ≠ '$')) :: pieces (rest.dropWhile (· ≠ '$'))
termination_by t => t.length
decreasing_by
  · have := (List.dropWhile_sublist (l := rest) isTokenChar).length_le
    grind
  · have := (List.dropWhile_sublist (l := rest) (· ≠ '$')).length_le
    grind

@[simp] theorem pieces_nil : pieces [] = [] := by
  rw [pieces]

theorem pieces_dollar (rest : Text) :
    pieces ('$' :: rest) =
      ('$' :: rest.takeWhile isTokenChar) :: pieces (rest.dropWhile isTokenChar) := by
  rw [pieces, if_pos rfl]

theorem pieces_cons_of_ne {c : Char} (h : c ≠ '$') (rest : Text) :
    pieces (c :: rest) =
      (c :: rest.takeWhile (· ≠ '$')) :: pieces (rest.dropWhile (· ≠ '$')) := by
  rw [pieces, if_neg h]

/-- The first piece of a text starts as the text does. -/
theorem head?_of_head?_pieces {next : Text} (h : next ∈ (pieces t).head?) :
    next.head? = t.head? := by
  cases t with
  | nil => simp at h
  | cons c rest =>
    by_cases hc : c = '$'
    · subst hc
      rw [pieces_dollar] at h
      obtain rfl := Option.some.inj h
      rfl
    · rw [pieces_cons_of_ne hc] at h
      obtain rfl := Option.some.inj h
      rfl

theorem isPlain_cons {c : Char} (h : c ≠ '$') (rest : Text) :
    IsPlain (c :: rest.takeWhile (· ≠ '$')) := by
  refine ⟨List.cons_ne_nil _ _, fun hmem ↦ ?_⟩
  rcases List.mem_cons.mp hmem with heq | hrest
  · exact h heq.symm
  · simpa using List.mem_takeWhile_imp hrest

theorem isCut_pieces (t : Text) : IsCut (pieces t) t := by
  fun_induction pieces t with
  | case1 => exact ⟨rfl, by simp, List.isChain_nil⟩
  | case2 rest ih =>
    have htoken : IsToken ('$' :: rest.takeWhile isTokenChar) :=
      isToken_cons fun c hc ↦ List.mem_takeWhile_imp hc
    refine ⟨?_, List.forall_mem_cons.mpr ⟨Or.inl htoken, ih.cases⟩,
      List.isChain_cons.mpr ⟨fun next hnext ↦ ⟨fun _ ↦ ?_, ?_⟩, ih.maximal⟩⟩
    · rw [List.flatten_cons, ih.flatten_eq, List.cons_append, List.takeWhile_append_dropWhile]
    · rw [head?_of_head?_pieces hnext]
      exact Text.head?_dropWhile isTokenChar rest
    · exact fun hplain ↦ absurd htoken hplain.not_isToken
  | case3 c rest hc ih =>
    have hplain := isPlain_cons hc rest
    refine ⟨?_, List.forall_mem_cons.mpr ⟨Or.inr hplain, ih.cases⟩,
      List.isChain_cons.mpr ⟨fun next hnext ↦ ⟨?_, fun _ ↦ ?_⟩, ih.maximal⟩⟩
    · rw [List.flatten_cons, ih.flatten_eq, List.cons_append, List.takeWhile_append_dropWhile]
    · exact fun htoken ↦ absurd htoken hplain.not_isToken
    · -- A plain piece cannot stand where the run before it has stopped.
      refine (ih.cases next (List.mem_of_head? hnext)).resolve_right fun hnextPlain ↦ ?_
      obtain ⟨d, next, rfl⟩ := List.exists_cons_of_ne_nil hnextPlain.1
      have hstop := Text.head?_dropWhile (· ≠ '$') rest d (head?_of_head?_pieces hnext).symm
      exact hnextPlain.2 (by simp_all)

namespace IsCut

theorem tail (h : IsCut (piece :: cut) t) : IsCut cut cut.flatten :=
  ⟨rfl, fun next hnext ↦ h.cases next (List.mem_cons_of_mem piece hnext), h.maximal.tail⟩

/-- What follows the first piece starts as the next piece does. -/
theorem exists_next (h : IsCut (piece :: cut) t) {c : Char} (hc : c ∈ cut.flatten.head?) :
    ∃ next ∈ cut.head?, c ∈ next.head? := by
  cases cut with
  | nil => cases hc
  | cons next rest =>
    have hne : next ≠ [] := by
      rcases h.cases next (by simp) with htoken | hplain
      · rintro rfl
        cases htoken.1
      · exact hplain.1
    obtain ⟨d, next, rfl⟩ := List.exists_cons_of_ne_nil hne
    exact ⟨_, rfl, hc⟩

/-- A text can be cut in one way only. -/
theorem eq_pieces (h : IsCut cut t) : cut = pieces t := by
  induction cut generalizing t with
  | nil =>
    obtain rfl : [] = t := h.flatten_eq
    rw [pieces_nil]
  | cons piece cut ih =>
    have hmaximal := (List.isChain_cons.mp h.maximal).1
    obtain rfl : piece ++ cut.flatten = t := h.flatten_eq
    rcases h.cases piece List.mem_cons_self with htoken | hplain
    · have hstop : ∀ c ∈ cut.flatten.head?, isTokenChar c = false := by
        intro c hc
        obtain ⟨next, hnext, hhead⟩ := h.exists_next hc
        exact (hmaximal next hnext).1 htoken c hhead
      obtain ⟨name, rfl, hname⟩ := htoken.exists_eq
      rw [List.cons_append, pieces_dollar, Text.takeWhile_run hname hstop,
        Text.dropWhile_run hname hstop, ← ih h.tail]
    · have hstop : ∀ c ∈ cut.flatten.head?, decide (c ≠ '$') = false := by
        intro c hc
        obtain ⟨next, hnext, hhead⟩ := h.exists_next hc
        have hdollar : c = '$' :=
          Option.some.inj (hhead.symm.trans ((hmaximal next hnext).2 hplain).1)
        simp [hdollar]
      obtain ⟨c, run, rfl⟩ := List.exists_cons_of_ne_nil hplain.1
      have hne := hplain.2
      rw [List.mem_cons, not_or] at hne
      have hrun : ∀ d ∈ run, decide (d ≠ '$') = true := by
        intro d hd
        simpa using ne_of_mem_of_not_mem hd hne.2
      rw [List.cons_append, pieces_cons_of_ne (Ne.symm hne.1), Text.takeWhile_run hrun hstop,
        Text.dropWhile_run hrun hstop, ← ih h.tail]

end IsCut

/-! ## Replacing piece by piece -/

theorem substitute_eq_flatMap (lookup : Text → Option Text) (t : Text) :
    substitute lookup t = (pieces t).flatMap (replaced lookup) := by
  fun_induction pieces t with
  | case1 => simp
  | case2 rest ih =>
    rw [substitute_dollar, ih, List.flatMap_cons,
      replaced_cons fun c hc ↦ List.mem_takeWhile_imp hc]
  | case3 c rest hc ih =>
    have hplain := isPlain_cons hc rest
    have hsplit : c :: rest = (c :: rest.takeWhile (· ≠ '$')) ++ rest.dropWhile (· ≠ '$') := by
      rw [List.cons_append, List.takeWhile_append_dropWhile]
    rw [hsplit, substitute_append_of_not_mem lookup hplain.2, ih, List.flatMap_cons,
      replaced_of_isPlain hplain]

/-- There is one way to cut a text into tokens and what is between them, and replacing works piece
by piece. A text whose tokens are all unknown stays as it is. Joined texts are replaced apart
unless a token character comes to stand behind a token. -/
theorem substitute_piece_by_piece (lookup : Text → Option Text) :
    (∀ t, ∃! cut, IsCut cut t) ∧
      (∀ t cut, IsCut cut t → substitute lookup t = cut.flatMap (replaced lookup) ∧
        ((∀ piece ∈ cut, IsToken piece ∧ 1 < piece.length → lookup piece = none) →
          substitute lookup t = t)) ∧
      ∀ u v, (∀ c ∈ v.head?, isTokenChar c = false) ∨ ¬EndsOpen u →
        substitute lookup (u ++ v) = substitute lookup u ++ substitute lookup v := by
  refine ⟨fun t ↦ ⟨pieces t, isCut_pieces t, fun cut hcut ↦ hcut.eq_pieces⟩, ?_, ?_⟩
  · intro t cut hcut
    have hreplaced : substitute lookup t = cut.flatMap (replaced lookup) := by
      rw [hcut.eq_pieces, substitute_eq_flatMap]
    refine ⟨hreplaced, fun hunknown ↦ ?_⟩
    have hsame : cut.map (replaced lookup) = cut.map id :=
      List.map_congr_left fun piece hpiece ↦ replaced_eq_self (hunknown piece hpiece)
    rw [hreplaced, List.flatMap_def, hsame, List.map_id, hcut.flatten_eq]
  · rintro u v (hhead | hclosed)
    · exact substitute_append (not_extends_of_head u hhead)
    · exact substitute_append fun hextends ↦ hclosed hextends.1

/-- Knows the token `$w` and no other. -/
def knownWidth (token : Text) : Option Text :=
  if token = "$w".toList then some "1px".toList else none

/-- A lone dollar sign behind a token, and a longer name that starts with that of the token. -/
theorem substitute_piece_by_piece_width :
    IsCut ["$w".toList, "$".toList, " ".toList, "$width".toList] "$w$ $width".toList ∧
      substitute knownWidth "$w$ $width".toList = "1px$ $width".toList ∧
      IsCut ["$".toList, "$width".toList] "$$width".toList ∧
      substitute knownWidth "$$width".toList = "$$width".toList ∧
      substitute knownWidth ("$w".toList ++ "$w".toList) = "1px1px".toList := by
  obtain ⟨-, hcuts, hjoined⟩ := substitute_piece_by_piece knownWidth
  have hcut : IsCut ["$w".toList, "$".toList, " ".toList, "$width".toList]
      "$w$ $width".toList := by
    have hpieces : pieces "$w$ $width".toList =
        ["$w".toList, "$".toList, " ".toList, "$width".toList] := by cbv
    exact hpieces ▸ isCut_pieces _
  have hunknown : IsCut ["$".toList, "$width".toList] "$$width".toList := by
    have hpieces : pieces "$$width".toList = ["$".toList, "$width".toList] := by cbv
    exact hpieces ▸ isCut_pieces _
  have hreplaced : ["$w".toList, "$".toList, " ".toList, "$width".toList].flatMap
      (replaced knownWidth) = "1px$ $width".toList := by
    simp [replaced, IsToken, isTokenChar, Text.isAlphanumeric_of_ascii, knownWidth]
  refine ⟨hcut, (hcuts _ _ hcut).1.trans hreplaced, hunknown,
    (hcuts _ _ hunknown).2 (by simp [knownWidth]), ?_⟩
  rw [hjoined _ _ (Or.inl (by simp [isTokenChar_dollar]))]
  cbv

end StyledMarkup.Token
