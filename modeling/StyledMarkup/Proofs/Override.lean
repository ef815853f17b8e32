import Mathlib
import StyledMarkup.Proofs.Variable

/-!
# What an overridden name still shows

The caller's values go in first and the document's second, round after round. A value of the caller
may itself bring in a name that the caller overrides, and in that round the document's value for
the name is the next to go in. Main statement: this is the only way in which a document's value for
an overridden name can matter.
-/

namespace StyledMarkup

namespace Token

/-- The tokens of a text, in order. -/
def tokens : Text → List Text
  | [] => []
  | c :: rest =>
    if c = '$' then
      (if rest.takeWhile isTokenChar = [] then [] else ['$' :: rest.takeWhile isTokenChar]) ++
        tokens (rest.dropWhile isTokenChar)
    else tokens rest
termination_by t => t.length
decreasing_by
  · have := (List.dropWhile_sublist (l := rest) isTokenChar).length_le
    grind
  · grind

theorem substitute_congr {lookup lookup' : Text → Option Text} {t : Text}
    (h : ∀ token ∈ tokens t, lookup token = lookup' token) :
    substitute lookup t = substitute lookup' t := by
  fun_induction tokens t with
  | case1 => simp
  | case2 rest ih =>
    simp only [List.mem_append] at h
    have hname : replacement lookup (rest.takeWhile isTokenChar) =
        replacement lookup' (rest.takeWhile isTokenChar) := by
      unfold replacement
      split
      · rfl
      · next hne => rw [h _ (Or.inl (by simp [hne]))]
    rw [substitute_dollar, substitute_dollar, hname, ih fun token hmem ↦ h token (Or.inr hmem)]
  | case3 c rest hc ih =>
    rw [substitute_cons_of_ne _ hc, substitute_cons_of_ne _ hc, ih h]

section Count

variable (lookup : Text → Option Text) {c : Char}

/-- Replacing tokens takes nothing out of a text but tokens. -/
theorem count_le_count_substitute (hdollar : c ≠ '$') (hchar : isTokenChar c = false) (t : Text) :
    t.count c ≤ (substitute lookup t).count c := by
  fun_induction substitute lookup t with
  | case1 => simp
  | case2 rest ih =>
    have hname : (rest.takeWhile isTokenChar).count c = 0 := by
      refine List.count_eq_zero.mpr fun hmem ↦ ?_
      simp [List.mem_takeWhile_imp hmem] at hchar
    have hrest : ('$' :: rest).count c = (rest.dropWhile isTokenChar).count c := by
      rw [List.count_cons_of_ne hdollar.symm,
        ← List.takeWhile_append_dropWhile (p := isTokenChar) (l := rest), List.count_append, hname]
      simp
    rw [hrest, List.count_append]
    omega
  | case3 d rest hd ih =>
    simp only [List.count_cons]
    omega

/-- The value of a token that a text has goes into the text whole. -/
theorem count_value_le_count_substitute {t token value : Text} (hmem : token ∈ tokens t)
    (hvalue : lookup token = some value) : value.count c ≤ (substitute lookup t).count c := by
  fun_induction tokens t with
  | case1 => simp at hmem
  | case2 rest ih =>
    rw [substitute_dollar, List.count_append]
    rcases List.mem_append.mp hmem with hhead | htail
    · split at hhead
      · simp at hhead
      · next hne =>
        obtain rfl := List.mem_singleton.mp hhead
        simp [replacement, hne, hvalue]
    · have := ih htail
      omega
  | case3 d rest hd ih =>
    rw [substitute_cons_of_ne _ hd, List.count_cons]
    have := ih hmem
    omega

end Count

end Token

namespace Bindings

/-- The names that have values. -/
def names (b : Bindings) : List Text :=
  b.entries.map Prod.fst

theorem find?_eq_none_iff {b : Bindings} {name : Text} : b.find? name = none ↔ name ∉ b.names := by
  rw [find?, List.lookup_eq_none_iff, names]
  grind

/-- Gives one of the names another value. -/
def revalue (b : Bindings) (name value : Text) : Bindings :=
  ⟨b.entries.map fun entry ↦ if entry.1 = name then (name, value) else entry⟩

theorem names_revalue (b : Bindings) (name value : Text) :
    (b.revalue name value).names = b.names := by
  simp only [names, revalue, List.map_map]
  exact List.map_congr_left fun entry _ ↦ by grind

theorem find?_revalue_of_ne (b : Bindings) {name other : Text} (value : Text) (h : other ≠ name) :
    (b.revalue name value).find? other = b.find? other := by
  obtain ⟨entries⟩ := b
  induction entries with
  | nil => rfl
  | cons entry entries ih =>
    simp only [find?, revalue, List.map_cons] at ih ⊢
    grind

theorem find?_revalue_self {b : Bindings} {name : Text} (value : Text) (h : name ∈ b.names) :
    (b.revalue name value).find? name = some value := by
  obtain ⟨entries⟩ := b
  induction entries with
  | nil => simp [names] at h
  | cons entry entries ih =>
    simp only [find?, revalue, names, List.map_cons, List.mem_cons] at ih h ⊢
    grind

end Bindings

namespace Resolver

variable {overrides table table' : Bindings} {t : Text}

/-- A round that changes nothing may as well be repeated. -/
theorem repeatPass_eq_iterate (r : Resolver) (rounds : Nat) (t : Text) :
    r.repeatPass rounds t = r.pass^[rounds] t := by
  induction rounds generalizing t with
  | zero => rfl
  | succ rounds ih =>
    rw [repeatPass, Function.iterate_succ_apply]
    split
    · next hfix => rw [hfix, Function.iterate_fixed hfix]
    · exact ih _

theorem apply_eq_iterate (r : Resolver) (t : Text) :
    r.apply t = r.pass^[r.overrides.size + r.table.size + 1] t := by
  rw [apply, repeatPass_eq_iterate, ← Function.iterate_succ_apply]

/-- Once the caller's values have gone into the text, no token is left that the caller overrides
and the table would replace. -/
def Covers (overrides table : Bindings) (t : Text) : Prop :=
  ∀ token ∈ Token.tokens (Token.substitute overrides.find? t),
    token ∈ overrides.names → token ∉ table.names

instance (overrides table : Bindings) (t : Text) : Decidable (Covers overrides table t) :=
  inferInstanceAs (Decidable (∀ token ∈ _, _))

/-- The two tables have the same names, and the same values for all but the overridden ones. -/
structure AgreeOff (overrides table table' : Bindings) : Prop where
  names : table.names.Perm table'.names
  find? : ∀ name ∉ overrides.names, table.find? name = table'.find? name

theorem AgreeOff.size_eq (h : AgreeOff overrides table table') : table'.size = table.size := by
  simpa [Bindings.names, Bindings.size] using h.names.length_eq.symm

theorem AgreeOff.pass_eq (h : AgreeOff overrides table table')
    (hcovers : Covers overrides table t) :
    pass ⟨overrides, table'⟩ t = pass ⟨overrides, table⟩ t := by
  refine Token.substitute_congr fun token hmem ↦ ?_
  by_cases hover : token ∈ overrides.names
  · have hnone := hcovers token hmem hover
    rw [Bindings.find?_eq_none_iff.mpr hnone,
      Bindings.find?_eq_none_iff.mpr (h.names.mem_iff.not.mp hnone)]
  · exact (h.find? token hover).symm

theorem AgreeOff.iterate_pass_eq (h : AgreeOff overrides table table') {rounds : Nat}
    (hcovers : ∀ k < rounds, Covers overrides table ((pass ⟨overrides, table⟩)^[k] t)) :
    (pass ⟨overrides, table'⟩)^[rounds] t = (pass ⟨overrides, table⟩)^[rounds] t := by
  induction rounds with
  | zero => rfl
  | succ rounds ih =>
    rw [Function.iterate_succ_apply', Function.iterate_succ_apply',
      ih fun k hk ↦ hcovers k (by omega), h.pass_eq (hcovers rounds (by omega))]

theorem count_le_count_iterate_pass (r : Resolver) {c : Char} (hdollar : c ≠ '$')
    (hchar : Token.isTokenChar c = false) (rounds : Nat) (t : Text) :
    t.count c ≤ (r.pass^[rounds] t).count c := by
  induction rounds generalizing t with
  | zero => simp
  | succ rounds ih =>
    calc t.count c ≤ (Token.substitute r.overrides.find? t).count c :=
          Token.count_le_count_substitute _ hdollar hchar t
      _ ≤ (r.pass t).count c := Token.count_le_count_substitute _ hdollar hchar _
      _ ≤ (r.pass^[rounds + 1] t).count c := ih (r.pass t)

/-- A value put in place of a token that is not covered stays in the text. -/
theorem exists_agreeOff_of_not_covers {rounds k : Nat} (hk : k ≤ rounds)
    (hbefore : ∀ j < k, Covers overrides table ((pass ⟨overrides, table⟩)^[j] t))
    (hleak : ¬ Covers overrides table ((pass ⟨overrides, table⟩)^[k] t)) (bound : Nat) :
    ∃ table', AgreeOff overrides table table' ∧
      bound ≤ ((pass ⟨overrides, table'⟩)^[rounds + 1] t).count '!' := by
  simp only [Covers, not_forall, not_not] at hleak
  obtain ⟨token, hmem, hover, hname⟩ := hleak
  have hagree : AgreeOff overrides table (table.revalue token (List.replicate bound '!')) := by
    refine ⟨by rw [Bindings.names_revalue], fun name hnot ↦ ?_⟩
    have hne : name ≠ token := fun heq ↦ hnot (heq ▸ hover)
    rw [Bindings.find?_revalue_of_ne _ _ hne]
  refine ⟨_, hagree, ?_⟩
  have hround : rounds + 1 = (rounds - k) + 1 + k := by omega
  rw [hround, Function.iterate_add_apply, hagree.iterate_pass_eq hbefore,
    Function.iterate_succ_apply]
  refine le_trans ?_ (count_le_count_iterate_pass _ (c := '!') (by decide) (by decide) _ _)
  simpa [pass] using Token.count_value_le_count_substitute (c := '!') _ hmem
    (Bindings.find?_revalue_self (List.replicate bound '!') hname)

/-- What a table says about overridden names does not matter to a text, exactly if in every round
the caller's values leave none of these names to the table. -/
theorem apply_eq_of_agreeOff_iff_covers (overrides table : Bindings) (t : Text) :
    (∀ table', AgreeOff overrides table table' →
        apply ⟨overrides, table'⟩ t = apply ⟨overrides, table⟩ t) ↔
      ∀ k ≤ overrides.size + table.size,
        Covers overrides table ((pass ⟨overrides, table⟩)^[k] t) := by
  constructor
  · intro hsame
    by_contra hleak
    push Not at hleak
    -- The first round that is not covered: before it every such table gives the same texts.
    classical
    obtain ⟨hk, hnot⟩ := Nat.find_spec hleak
    have hbefore : ∀ j < Nat.find hleak,
        Covers overrides table ((pass ⟨overrides, table⟩)^[j] t) := by
      intro j hj
      have := Nat.find_min hleak hj
      by_contra hcontra
      exact this ⟨by omega, hcontra⟩
    obtain ⟨table', hagree, hcount⟩ := exists_agreeOff_of_not_covers hk hbefore hnot
      ((apply ⟨overrides, table⟩ t).count '!' + 1)
    have happly := hsame table' hagree
    rw [apply_eq_iterate ⟨overrides, table'⟩] at happly
    simp only [hagree.size_eq] at happly
    rw [happly] at hcount
    omega
  · intro hcovers table' hagree
    rw [apply_eq_iterate, apply_eq_iterate]
    simp only [hagree.size_eq]
    exact hagree.iterate_pass_eq fun k hk ↦ hcovers k (by omega)

/-- A caller's value that mentions an overridden name brings the document's value in. -/
theorem not_forall_apply_eq_of_agreeOff :
    ¬ ∀ (overrides table table' : Bindings) (t : Text), AgreeOff overrides table table' →
      apply ⟨overrides, table⟩ t = apply ⟨overrides, table'⟩ t := by
  intro hall
  have hagree : AgreeOff ⟨[("$a".toList, "$b".toList), ("$b".toList, "x".toList)]⟩
      ⟨[("$b".toList, "1".toList)]⟩ ⟨[("$b".toList, "2".toList)]⟩ := by
    refine ⟨by simp [Bindings.names], fun name hname ↦ ?_⟩
    simp only [Bindings.names, Bindings.find?] at hname ⊢
    grind
  have hone : apply ⟨⟨[("$a".toList, "$b".toList), ("$b".toList, "x".toList)]⟩,
      ⟨[("$b".toList, "1".toList)]⟩⟩ "$a".toList = "1".toList := by cbv
  have htwo : apply ⟨⟨[("$a".toList, "$b".toList), ("$b".toList, "x".toList)]⟩,
      ⟨[("$b".toList, "2".toList)]⟩⟩ "$a".toList = "2".toList := by cbv
  have hsame := hall _ _ _ "$a".toList hagree
  rw [hone, htwo] at hsame
  revert hsame
  decide

end Resolver

end StyledMarkup
