import StyledMarkup.Proofs.Token

/-!
# Resolving without a circle

When no value leads back to its own name, resolving gets rid of every known name. A known name that
is still there after some rounds came in with a value, whose own name was there a round before, and
so on back to the text: there are as many different names behind it as there were rounds, and so no
more rounds than names.
-/

namespace StyledMarkup

theorem Bindings.mem_of_find? {b : Bindings} {name value : Text} (h : b.find? name = some value) :
    (name, value) ∈ b.entries := by
  obtain ⟨front, back, hentries, -⟩ := List.lookup_eq_some_iff.mp h
  simp [hentries]

theorem Bindings.find?_of_mem {b : Bindings} (hnames : b.names.Nodup) {name value : Text}
    (h : (name, value) ∈ b.entries) : b.find? name = some value := by
  obtain ⟨front, back, hentries⟩ := List.append_of_mem h
  refine List.lookup_eq_some_iff.mpr ⟨front, back, hentries, fun entry hentry ↦ ?_⟩
  rw [names, hentries, List.map_append, List.nodup_append] at hnames
  have hne := hnames.2.2 entry.1 (List.mem_map_of_mem hentry) name (by simp)
  simpa using hne.symm

namespace Resolver

variable {r : Resolver} {t : Text} {token : Text}

/-- The name has a value, from the caller or from the document. -/
def Knows (r : Resolver) (name : Text) : Prop :=
  name ∈ r.overrides.names ∨ name ∈ r.table.names

/-- One of the values of the name. -/
def Gives (r : Resolver) (name value : Text) : Prop :=
  r.overrides.find? name = some value ∨ r.table.find? name = some value

/-- A value of `name` has the known name `other` among its tokens. -/
def Mentions (r : Resolver) (name other : Text) : Prop :=
  r.Knows other ∧ ∃ value, r.Gives name value ∧ other ∈ Token.tokens value

/-- No name leads back to itself. -/
def Acyclic (r : Resolver) : Prop :=
  ∀ name, ¬Relation.TransGen r.Mentions name name

/-- In no value a dollar sign directly follows a token. -/
def SpacedValues (r : Resolver) : Prop :=
  ∀ name value, r.Gives name value → Token.Spaced value

theorem Gives.knows {name value : Text} (h : r.Gives name value) : r.Knows name := by
  by_contra hunknown
  rw [Knows, not_or, ← Bindings.find?_eq_none_iff, ← Bindings.find?_eq_none_iff] at hunknown
  rcases h with h | h
  · rw [hunknown.1] at h
    cases h
  · rw [hunknown.2] at h
    cases h

theorem Gives.mem {name value : Text} (h : r.Gives name value) :
    (name, value) ∈ r.overrides.entries ++ r.table.entries :=
  List.mem_append.mpr (h.imp Bindings.mem_of_find? Bindings.mem_of_find?)

/-- Names lead back to none when each mentions only names of lower rank. -/
theorem acyclic_of_rank (rank : Text → Nat)
    (h : ∀ entry ∈ r.overrides.entries ++ r.table.entries, ∀ other ∈ Token.tokens entry.2,
      rank other < rank entry.1) : r.Acyclic := by
  have hlt : ∀ name other, Relation.TransGen r.Mentions name other → rank other < rank name := by
    intro name other hleads
    induction hleads with
    | single hmentions =>
      obtain ⟨-, value, hgives, hmem⟩ := hmentions
      exact h _ hgives.mem _ hmem
    | tail _ hmentions ih =>
      obtain ⟨-, value, hgives, hmem⟩ := hmentions
      exact (h _ hgives.mem _ hmem).trans ih
  exact fun name hcircle ↦ Nat.lt_irrefl _ (hlt name name hcircle)

/-! ## One round -/

theorem SpacedValues.pass (h : r.SpacedValues) (ht : Token.Spaced t) : Token.Spaced (r.pass t) :=
  (ht.substitute fun token value hvalue ↦ h token value (Or.inl hvalue)).substitute
    fun token value hvalue ↦ h token value (Or.inr hvalue)

theorem mem_tokens_substitute {lookup : Text → Option Text} (ht : Token.Spaced t)
    (h : token ∈ Token.tokens (Token.substitute lookup t)) :
    token ∈ Token.tokens t ∧ lookup token = none ∨
      ∃ name ∈ Token.tokens t, ∃ value, lookup name = some value ∧ token ∈ Token.tokens value := by
  rw [Token.tokens_substitute ht, List.mem_flatMap] at h
  obtain ⟨name, hname, hmem⟩ := h
  cases hlookup : lookup name with
  | none =>
    obtain rfl : token = name := by simpa [hlookup] using hmem
    exact Or.inl ⟨hname, hlookup⟩
  | some value => exact Or.inr ⟨name, hname, value, hlookup, by simpa [hlookup] using hmem⟩

/-- A known name that is there after a round was brought in by one that was there before. -/
theorem exists_mentions_of_pass (hvalues : r.SpacedValues) (ht : Token.Spaced t)
    (h : token ∈ Token.tokens (r.pass t)) (hknown : r.Knows token) :
    ∃ name ∈ Token.tokens t, r.Knows name ∧ Relation.TransGen r.Mentions name token := by
  have hspaced : Token.Spaced (Token.substitute r.overrides.find? t) :=
    ht.substitute fun token value hvalue ↦ hvalues token value (Or.inl hvalue)
  rcases mem_tokens_substitute hspaced h with ⟨hmem, htable⟩ | ⟨name, hname, value, htable, hvalue⟩
  · rcases mem_tokens_substitute ht hmem with ⟨-, hover⟩ | ⟨name, hname, value, hover, hvalue⟩
    · rcases hknown with hover' | htable'
      · exact absurd hover' (Bindings.find?_eq_none_iff.mp hover)
      · exact absurd htable' (Bindings.find?_eq_none_iff.mp htable)
    · have hgives : r.Gives name value := Or.inl hover
      exact ⟨name, hname, hgives.knows, .single ⟨hknown, value, hgives, hvalue⟩⟩
  · have hgives : r.Gives name value := Or.inr htable
    have hlast : r.Mentions name token := ⟨hknown, value, hgives, hvalue⟩
    rcases mem_tokens_substitute ht hname with ⟨hmem, -⟩ | ⟨first, hfirst, outer, hover, houter⟩
    · exact ⟨name, hmem, hgives.knows, .single hlast⟩
    · have hgives' : r.Gives first outer := Or.inl hover
      exact ⟨first, hfirst, hgives'.knows,
        .tail (.single ⟨hgives.knows, outer, hgives', houter⟩) hlast⟩

/-! ## All rounds -/

theorem SpacedValues.iterate_pass (h : r.SpacedValues) (ht : Token.Spaced t) (rounds : Nat) :
    Token.Spaced (r.pass^[rounds] t) := by
  induction rounds with
  | zero => exact ht
  | succ rounds ih =>
    rw [Function.iterate_succ_apply']
    exact h.pass ih

/-- Behind a known name that is there after some rounds there are as many different names. -/
theorem exists_names_of_iterate_pass (hacyclic : r.Acyclic) (hvalues : r.SpacedValues)
    (ht : Token.Spaced t) (rounds : Nat) (h : token ∈ Token.tokens (r.pass^[rounds] t))
    (hknown : r.Knows token) :
    ∃ names : List Text, names.length = rounds ∧ names.Nodup ∧
      ∀ name ∈ names, r.Knows name ∧ Relation.TransGen r.Mentions name token := by
  induction rounds generalizing token with
  | zero => exact ⟨[], rfl, List.nodup_nil, by simp⟩
  | succ rounds ih =>
    rw [Function.iterate_succ_apply'] at h
    obtain ⟨name, hname, hnameKnown, hleads⟩ :=
      exists_mentions_of_pass hvalues (hvalues.iterate_pass ht rounds) h hknown
    obtain ⟨names, hlength, hnodup, hall⟩ := ih hname hnameKnown
    refine ⟨name :: names, by rw [List.length_cons, hlength], ?_, ?_⟩
    · refine List.nodup_cons.mpr ⟨fun hmem ↦ ?_, hnodup⟩
      exact hacyclic name (hall name hmem).2
    · intro other hother
      rcases List.mem_cons.mp hother with rfl | hother
      · exact ⟨hnameKnown, hleads⟩
      · exact ⟨(hall other hother).1, (hall other hother).2.trans hleads⟩

theorem not_knows_of_iterate_pass (hacyclic : r.Acyclic) (hvalues : r.SpacedValues)
    (ht : Token.Spaced t) {rounds : Nat} (hrounds : r.overrides.size + r.table.size ≤ rounds)
    (h : token ∈ Token.tokens (r.pass^[rounds] t)) : ¬r.Knows token := by
  intro hknown
  obtain ⟨names, hlength, hnodup, hall⟩ :=
    exists_names_of_iterate_pass hacyclic hvalues ht rounds h hknown
  have hdistinct : (token :: names).Nodup :=
    List.nodup_cons.mpr ⟨fun hmem ↦ hacyclic token (hall token hmem).2, hnodup⟩
  have hsubset : token :: names ⊆ r.overrides.names ++ r.table.names := by
    intro name hname
    rcases List.mem_cons.mp hname with rfl | hname
    · exact List.mem_append.mpr hknown
    · exact List.mem_append.mpr (hall name hname).1
  have hle := (hdistinct.subperm hsubset).length_le
  simp only [List.length_cons, List.length_append, Bindings.names, List.length_map] at hle
  simp only [Bindings.size] at hrounds
  omega

theorem pass_eq_self (h : ∀ token ∈ Token.tokens t, ¬r.Knows token) : r.pass t = t := by
  have hover : Token.substitute r.overrides.find? t = t :=
    Token.substitute_eq_self fun token hmem ↦
      Bindings.find?_eq_none_iff.mpr fun hname ↦ h token hmem (Or.inl hname)
  rw [pass, hover]
  exact Token.substitute_eq_self fun token hmem ↦
    Bindings.find?_eq_none_iff.mpr fun hname ↦ h token hmem (Or.inr hname)

/-- Without a circle of mentions, and where no dollar sign directly follows a token, no known name
is left in a resolved text, so that nothing is left to do. -/
theorem apply_resolves (hacyclic : r.Acyclic) (hvalues : r.SpacedValues) (ht : Token.Spaced t) :
    (∀ token ∈ Token.tokens (r.apply t), ¬r.Knows token) ∧
      r.pass (r.apply t) = r.apply t ∧ r.apply (r.apply t) = r.apply t := by
  have hgone : ∀ token ∈ Token.tokens (r.apply t), ¬r.Knows token := by
    intro token hmem
    rw [apply_eq_iterate] at hmem
    exact not_knows_of_iterate_pass hacyclic hvalues ht (Nat.le_succ _) hmem
  have hfixed : r.pass (r.apply t) = r.apply t := pass_eq_self hgone
  refine ⟨hgone, hfixed, ?_⟩
  rw [apply_eq_iterate r (r.apply t)]
  exact Function.iterate_fixed hfixed _

/-- A value of the caller mentions two variables of the document, one of which mentions the
other. -/
theorem apply_resolves_chain :
    let r : Resolver := ⟨⟨[("$a".toList, "$b or $c".toList)]⟩,
      ⟨[("$b".toList, "1$c".toList), ("$c".toList, "2$d".toList)]⟩⟩
    r.Acyclic ∧ r.SpacedValues ∧ Token.Spaced "x: $a;".toList ∧
      r.apply "x: $a;".toList = "x: 12$d or 2$d;".toList ∧
      (∀ token ∈ Token.tokens (r.apply "x: $a;".toList), ¬r.Knows token) ∧
      r.pass (r.apply "x: $a;".toList) = r.apply "x: $a;".toList ∧
      r.apply (r.apply "x: $a;".toList) = r.apply "x: $a;".toList := by
  intro r
  have hacyclic : r.Acyclic :=
    acyclic_of_rank (fun name ↦ ["$d".toList, "$c".toList, "$b".toList, "$a".toList].idxOf name)
      (by decide +kernel)
  have hvalues : r.SpacedValues := by
    intro name value hgives
    have hmem : value ∈ ["$b or $c".toList, "1$c".toList, "2$d".toList] :=
      List.mem_map_of_mem hgives.mem (f := Prod.snd)
    have hall : ∀ value ∈ ["$b or $c".toList, "1$c".toList, "2$d".toList], Token.Spaced value := by
      decide
    exact hall value hmem
  have ht : Token.Spaced "x: $a;".toList := by decide
  exact ⟨hacyclic, hvalues, ht, by cbv, apply_resolves hacyclic hvalues ht⟩

end Resolver

end StyledMarkup
