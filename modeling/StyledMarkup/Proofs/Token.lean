import StyledMarkup.Proofs.Override
import StyledMarkup.Proofs.Text

/-!
# Tokens where two texts meet

Two texts can be replaced apart as long as no token lies across their joint. In a text in which no
dollar sign directly follows a token the values that are put in meet nothing they could run into:
the tokens of the replaced text are, one after another, those that stayed and those of the values,
and the replaced text is of this kind again.
-/

namespace StyledMarkup.Token

variable {lookup : Text → Option Text} {u v t : Text}

theorem isTokenChar_dollar : isTokenChar '$' = false := by decide

theorem dollar_not_mem_of_isTokenChar {name : Text} (h : ∀ c ∈ name, isTokenChar c = true) :
    '$' ∉ name := by
  intro hmem
  have htoken := h '$' hmem
  rw [isTokenChar_dollar] at htoken
  cases htoken

theorem tokens_dollar (rest : Text) :
    tokens ('$' :: rest) =
      (if rest.takeWhile isTokenChar = [] then [] else ['$' :: rest.takeWhile isTokenChar]) ++
        tokens (rest.dropWhile isTokenChar) := by
  rw [tokens, if_pos rfl]

theorem tokens_cons_of_ne {c : Char} (h : c ≠ '$') (rest : Text) :
    tokens (c :: rest) = tokens rest := by
  rw [tokens, if_neg h]

theorem tokens_of_not_mem (h : '$' ∉ t) : tokens t = [] := by
  induction t with
  | nil => simp [tokens]
  | cons c t ih =>
    rw [List.mem_cons, not_or] at h
    rw [tokens_cons_of_ne (Ne.symm h.1), ih h.2]

/-! ## Joints -/

/-- The text ends in a dollar sign and token characters after it, perhaps none. -/
def EndsOpen (u : Text) : Prop :=
  ∃ front name, u = front ++ '$' :: name ∧ ∀ c ∈ name, isTokenChar c = true

/-- Joining the texts puts token characters behind the last token of the first one, or behind a
dollar sign that was none. -/
def Extends (u v : Text) : Prop :=
  EndsOpen u ∧ ∃ c ∈ v.head?, isTokenChar c = true

theorem EndsOpen.append_left (h : EndsOpen u) (front : Text) : EndsOpen (front ++ u) := by
  obtain ⟨start, name, rfl, hname⟩ := h
  exact ⟨front ++ start, name, by simp, hname⟩

theorem Extends.append_left (h : Extends u v) (front : Text) : Extends (front ++ u) v :=
  ⟨h.1.append_left front, h.2⟩

theorem not_extends_of_head (u : Text) (hv : ∀ c ∈ v.head?, isTokenChar c = false) :
    ¬Extends u v := by
  rintro ⟨-, c, hc, htoken⟩
  rw [hv c hc] at htoken
  cases htoken

/-- The name at a dollar sign is the same in front of a text that does not extend it. -/
theorem name_append {rest : Text} (h : ¬Extends ('$' :: rest) v) :
    (rest ++ v).takeWhile isTokenChar = rest.takeWhile isTokenChar ∧
      (rest ++ v).dropWhile isTokenChar = rest.dropWhile isTokenChar ++ v := by
  have hsplit := List.takeWhile_append_dropWhile (p := isTokenChar) (l := rest)
  have hname : ∀ c ∈ rest.takeWhile isTokenChar, isTokenChar c = true :=
    fun c hc ↦ List.mem_takeWhile_imp hc
  have hstop : ∀ c ∈ (rest.dropWhile isTokenChar ++ v).head?, isTokenChar c = false := by
    cases hdrop : rest.dropWhile isTokenChar with
    | nil =>
      intro c hc
      by_contra htoken
      rw [hdrop, List.append_nil] at hsplit
      exact h ⟨⟨[], rest, rfl, hsplit ▸ hname⟩, c, hc, by simpa using htoken⟩
    | cons d after => simpa [hdrop] using Text.head?_dropWhile isTokenChar rest
  have hjoined : rest ++ v = rest.takeWhile isTokenChar ++ (rest.dropWhile isTokenChar ++ v) := by
    rw [← List.append_assoc, hsplit]
  rw [hjoined]
  exact ⟨Text.takeWhile_run hname hstop, Text.dropWhile_run hname hstop⟩

theorem not_extends_dropWhile {rest : Text} (h : ¬Extends ('$' :: rest) v) :
    ¬Extends (rest.dropWhile isTokenChar) v := by
  intro hextends
  have hwhole := hextends.append_left ('$' :: rest.takeWhile isTokenChar)
  rw [List.cons_append, List.takeWhile_append_dropWhile] at hwhole
  exact h hwhole

theorem substitute_append (h : ¬Extends u v) :
    substitute lookup (u ++ v) = substitute lookup u ++ substitute lookup v := by
  fun_induction substitute lookup u with
  | case1 => simp
  | case2 rest ih =>
    obtain ⟨htake, hdrop⟩ := name_append h
    rw [List.cons_append, substitute_dollar, htake, hdrop, ih (not_extends_dropWhile h),
      List.append_assoc]
  | case3 c rest hc ih =>
    rw [List.cons_append, substitute_cons_of_ne _ hc,
      ih fun hextends ↦ h (hextends.append_left [c]), List.cons_append]

theorem tokens_append (h : ¬Extends u v) : tokens (u ++ v) = tokens u ++ tokens v := by
  fun_induction tokens u with
  | case1 => simp
  | case2 rest ih =>
    obtain ⟨htake, hdrop⟩ := name_append h
    rw [List.cons_append, tokens_dollar, htake, hdrop, ih (not_extends_dropWhile h),
      List.append_assoc]
  | case3 c rest hc ih =>
    rw [List.cons_append, tokens_cons_of_ne hc, ih fun hextends ↦ h (hextends.append_left [c])]

/-! ## Unknown tokens -/

theorem substitute_none (t : Text) : substitute (fun _ ↦ none) t = t := by
  fun_induction substitute (fun _ ↦ none) t with
  | case1 => rfl
  | case2 rest ih =>
    rw [ih]
    unfold replacement
    split
    · next hname =>
      conv_rhs => rw [← List.takeWhile_append_dropWhile (p := isTokenChar) (l := rest), hname]
      rfl
    · simp
  | case3 c rest hc ih => rw [ih]

theorem substitute_eq_self (h : ∀ token ∈ tokens t, lookup token = none) :
    substitute lookup t = t :=
  (substitute_congr h).trans (substitute_none t)

/-! ## Tokens that stand apart -/

/-- No token, and no lone dollar sign, is directly followed by a dollar sign. -/
def Spaced (t : Text) : Prop :=
  ∀ s ∈ t.tails, s.head? = some '$' → (s.tail.dropWhile isTokenChar).head? ≠ some '$'

instance (t : Text) : Decidable (Spaced t) :=
  inferInstanceAs (Decidable (∀ s ∈ t.tails, _))

theorem Spaced.of_suffix (h : Spaced t) (hsuffix : u <:+ t) : Spaced u := by
  intro s hs
  exact h s ((List.mem_tails _ _).mpr (((List.mem_tails _ _).mp hs).trans hsuffix))

theorem Spaced.head?_ne (h : Spaced ('$' :: t)) : (t.dropWhile isTokenChar).head? ≠ some '$' :=
  h ('$' :: t) ((List.mem_tails _ _).mpr List.suffix_rfl) rfl

theorem Spaced.append (hu : Spaced u) (hv : Spaced v)
    (hjoint : ∀ c ∈ v.head?, isTokenChar c = false ∧ c ≠ '$') : Spaced (u ++ v) := by
  have hextends : ∀ w, ¬Extends w v := fun w ↦ not_extends_of_head w fun c hc ↦ (hjoint c hc).1
  intro s hs hhead
  obtain ⟨front, hfront⟩ := (List.mem_tails _ _).mp hs
  rcases List.append_eq_append_iff.mp hfront with ⟨middle, rfl, rfl⟩ | ⟨middle, rfl, rfl⟩
  · cases middle with
    | nil => exact hv _ ((List.mem_tails _ _).mpr List.suffix_rfl) hhead
    | cons d middle =>
      obtain rfl : d = '$' := by simpa using hhead
      rw [List.cons_append, List.tail_cons, (name_append (hextends _)).2]
      cases hdrop : middle.dropWhile isTokenChar with
      | nil =>
        intro hdollar
        exact (hjoint '$' hdollar).2 rfl
      | cons e after =>
        have := (hu.of_suffix (List.suffix_append front _)).head?_ne
        simpa [hdrop] using this
  · exact hv s ((List.mem_tails _ _).mpr (List.suffix_append middle s)) hhead

theorem head?_substitute (h : t.head? ≠ some '$') : (substitute lookup t).head? = t.head? := by
  cases t with
  | nil => simp
  | cons c t =>
    have hc : c ≠ '$' := by simpa using h
    rw [substitute_cons_of_ne _ hc]
    rfl

theorem head?_substitute_dropWhile (h : Spaced ('$' :: t)) :
    ∀ c ∈ (substitute lookup (t.dropWhile isTokenChar)).head?,
      isTokenChar c = false ∧ c ≠ '$' := by
  have hne := h.head?_ne
  rw [head?_substitute hne]
  intro c hc
  refine ⟨Text.head?_dropWhile isTokenChar t c hc, ?_⟩
  rintro rfl
  exact hne hc

theorem tokens_replacement {name : Text} (hname : ∀ c ∈ name, isTokenChar c = true) :
    tokens (replacement lookup name) =
      (if name = [] then [] else ['$' :: name]).flatMap fun token ↦
        (lookup token).elim [token] tokens := by
  unfold replacement
  split
  · simp [tokens]
  · next hne =>
    have hself : tokens ('$' :: name) = ['$' :: name] := by
      rw [tokens_dollar, List.takeWhile_eq_self_iff.mpr hname, List.dropWhile_eq_nil_iff.mpr hname]
      simp [hne, tokens]
    cases hlookup : lookup ('$' :: name) <;> simp [hlookup, hself]

/-- The tokens of a replaced text are those that stayed and those of the values put in. -/
theorem tokens_substitute (h : Spaced t) :
    tokens (substitute lookup t) =
      (tokens t).flatMap fun token ↦ (lookup token).elim [token] tokens := by
  fun_induction tokens t with
  | case1 => simp [tokens]
  | case2 rest ih =>
    have hrest : Spaced (rest.dropWhile isTokenChar) :=
      h.of_suffix ((List.dropWhile_suffix _).trans (List.suffix_cons _ _))
    have hjoint : ¬Extends (replacement lookup (rest.takeWhile isTokenChar))
        (substitute lookup (rest.dropWhile isTokenChar)) :=
      not_extends_of_head _ fun c hc ↦ (head?_substitute_dropWhile h c hc).1
    rw [substitute_dollar, tokens_append hjoint, ih hrest, List.flatMap_append,
      tokens_replacement fun c hc ↦ List.mem_takeWhile_imp hc]
  | case3 c rest hc ih =>
    rw [substitute_cons_of_ne _ hc, tokens_cons_of_ne hc,
      ih (h.of_suffix (List.suffix_cons c rest))]

theorem spaced_replacement {name : Text} (hname : ∀ c ∈ name, isTokenChar c = true)
    (hvalues : ∀ token value, lookup token = some value → Spaced value) :
    Spaced (replacement lookup name) := by
  have hself : Spaced ('$' :: name) := by
    intro s hs hhead
    rcases List.suffix_cons_iff.mp ((List.mem_tails _ _).mp hs) with rfl | hsuffix
    · simp [List.dropWhile_eq_nil_iff.mpr hname]
    · exact absurd (hsuffix.subset (List.mem_of_head? hhead)) (dollar_not_mem_of_isTokenChar hname)
  unfold replacement
  split
  · next hnil => exact hnil ▸ hself
  · cases hlookup : lookup ('$' :: name) with
    | none => exact hself
    | some value => exact hvalues _ value hlookup

theorem Spaced.substitute (h : Spaced t)
    (hvalues : ∀ token value, lookup token = some value → Spaced value) :
    Spaced (substitute lookup t) := by
  fun_induction Token.substitute lookup t with
  | case1 => exact h
  | case2 rest ih =>
    refine (spaced_replacement (fun c hc ↦ List.mem_takeWhile_imp hc) hvalues).append
      (ih (h.of_suffix ((List.dropWhile_suffix _).trans (List.suffix_cons _ _)))) ?_
    exact head?_substitute_dropWhile h
  | case3 c rest hc ih =>
    have hrest := ih (h.of_suffix (List.suffix_cons c rest))
    intro s hs hhead
    rcases List.suffix_cons_iff.mp ((List.mem_tails _ _).mp hs) with rfl | hsuffix
    · exact absurd (by simpa using hhead) hc
    · exact hrest s ((List.mem_tails _ _).mpr hsuffix) hhead

end StyledMarkup.Token
