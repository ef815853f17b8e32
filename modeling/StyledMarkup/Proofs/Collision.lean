import StyledMarkup.Proofs.Adjacency

/-!
# Texts that cannot run together

Some texts never fuse, whatever the variables are. Main statement: of the texts that do not extend
each other's tokens they are all but those of which the first ends in a dollar sign, with or without
a name, and the second starts with dollar signs in front of a name.
-/

namespace StyledMarkup

namespace Token

variable {lookup : Text → Option Text} {u v t : Text}

/-- The text starts with a token character, or with dollar signs in front of one. -/
def StartsName (v : Text) : Prop :=
  ∃ c ∈ (v.dropWhile (· == '$')).head?, isTokenChar c = true

/-- What the two texts become may run together to a token. -/
def Collides (u v : Text) : Prop :=
  EndsOpen u ∧ StartsName v

theorem isTokenChar_mark : isTokenChar '!' = false := by decide

theorem startsName_dollar : StartsName ('$' :: v) ↔ StartsName v := by
  simp [StartsName]

theorem startsName_cons_of_ne {c : Char} (h : c ≠ '$') :
    StartsName (c :: v) ↔ isTokenChar c = true := by
  simp [StartsName, h]

theorem isTokenChar_head_of_not_startsName (h : ¬StartsName v) :
    ∀ c ∈ v.head?, isTokenChar c = false := by
  cases v with
  | nil => simp
  | cons c v =>
    by_cases hc : c = '$'
    · simp [hc, isTokenChar_dollar]
    · simpa [startsName_cons_of_ne hc] using h

/-- A dollar sign that is not in front of a token character stays. -/
theorem substitute_dollar_of_head (h : ∀ c ∈ t.head?, isTokenChar c = false) :
    substitute lookup ('$' :: t) = '$' :: substitute lookup t := by
  have hname : ∀ c ∈ ([] : Text), isTokenChar c = true := by simp
  exact substitute_dollar_run hname h

theorem substitute_append_dollar (lookup : Text → Option Text) (t : Text) :
    substitute lookup (t ++ ['$']) = substitute lookup t ++ ['$'] := by
  rw [substitute_append (not_extends_of_head t (by simp [isTokenChar_dollar])),
    substitute_dollar_of_head (by simp), substitute_nil]

theorem substitute_dollars (a : Nat) {name after : Text} (hname : ∀ c ∈ name, isTokenChar c = true)
    (hafter : ∀ c ∈ after.head?, isTokenChar c = false) :
    substitute lookup (List.replicate a '$' ++ '$' :: (name ++ after)) =
      List.replicate a '$' ++ (replacement lookup name ++ substitute lookup after) := by
  induction a with
  | zero => simpa using substitute_dollar_run hname hafter
  | succ a ih =>
    have hhead : ∀ c ∈ (List.replicate a '$' ++ '$' :: (name ++ after)).head?,
        isTokenChar c = false := by
      cases a <;> simp [List.replicate_succ, isTokenChar_dollar]
    rw [List.replicate_succ, List.cons_append, substitute_dollar_of_head hhead, ih]
    rfl

theorem not_startsName_substitute (h : ¬StartsName v) : ¬StartsName (substitute lookup v) := by
  induction v with
  | nil => simpa using h
  | cons c v ih =>
    by_cases hc : c = '$'
    · subst hc
      rw [startsName_dollar] at h
      rw [substitute_dollar_of_head (isTokenChar_head_of_not_startsName h), startsName_dollar]
      exact ih h
    · rw [substitute_cons_of_ne _ hc, startsName_cons_of_ne hc]
      rwa [startsName_cons_of_ne hc] at h

theorem StartsName.exists_eq (h : StartsName v) :
    ∃ dollars name after, v = List.replicate dollars '$' ++ (name ++ after) ∧ name ≠ [] ∧
      (∀ c ∈ name, isTokenChar c = true) ∧ ∀ c ∈ after.head?, isTokenChar c = false := by
  obtain ⟨c, hc, htoken⟩ := h
  obtain ⟨rest, hrest⟩ := List.head?_eq_some_iff.mp hc
  refine ⟨(v.takeWhile (· == '$')).length, (c :: rest).takeWhile isTokenChar,
    (c :: rest).dropWhile isTokenChar, ?_, by simp [htoken],
    fun d hd ↦ List.mem_takeWhile_imp hd, Text.head?_dropWhile isTokenChar _⟩
  have hdollars : v.takeWhile (· == '$') = List.replicate (v.takeWhile (· == '$')).length '$' :=
    List.eq_replicate_of_mem fun d hd ↦ by simpa using List.mem_takeWhile_imp hd
  rw [List.takeWhile_append_dropWhile, ← hdollars, ← hrest, List.takeWhile_append_dropWhile]

theorem not_endsOpen_of_ne {front run : Text} {d : Char} (hd : isTokenChar d = false)
    (hne : d ≠ '$') (hrun : ∀ c ∈ run, isTokenChar c = true) : ¬EndsOpen (front ++ d :: run) := by
  rw [endsOpen_iff, openName?_append hd hrun, if_neg hne]
  simp

/-- Only token characters, or only token characters behind the last other one. -/
theorem exists_last_run (u : Text) :
    (∀ c ∈ u, isTokenChar c = true) ∨ ∃ front d run, u = front ++ d :: run ∧
      isTokenChar d = false ∧ ∀ c ∈ run, isTokenChar c = true := by
  induction u with
  | nil => exact Or.inl (by simp)
  | cons c u ih =>
    rcases ih with hall | ⟨front, d, run, rfl, hd, hrun⟩
    · cases hc : isTokenChar c with
      | true => exact Or.inl (by simpa [hc] using hall)
      | false => exact Or.inr ⟨[], c, u, rfl, hc, hall⟩
    · exact Or.inr ⟨c :: front, d, run, rfl, hd, hrun⟩

theorem not_endsOpen_substitute (h : ¬EndsOpen u) : ¬EndsOpen (substitute lookup u) := by
  rcases exists_last_run u with hall | ⟨front, d, run, rfl, hd, hrun⟩
  · rwa [substitute_of_not_mem lookup (dollar_not_mem_of_isTokenChar hall)]
  · have hne : d ≠ '$' := by
      rintro rfl
      exact h ⟨front, run, rfl, hrun⟩
    rw [substitute_append (not_extends_of_head front (by simp [hd])),
      substitute_cons_of_ne _ hne,
      substitute_of_not_mem lookup (dollar_not_mem_of_isTokenChar hrun)]
    exact not_endsOpen_of_ne hd hne hrun

theorem not_fuses_of_not_collides (h : ¬Collides u v) : ¬Fuses lookup u v := by
  intro hfuses
  obtain ⟨hopen, c, hc, htoken⟩ := hfuses.extends
  have hname : ¬StartsName v := fun hname ↦ h ⟨hopen, hname⟩
  rw [isTokenChar_head_of_not_startsName hname c hc] at htoken
  cases htoken

theorem not_collides_substitute (h : ¬Collides u v) :
    ¬Collides (substitute lookup u) (substitute lookup v) := by
  rintro ⟨hopen, hname⟩
  refine h ⟨?_, ?_⟩
  · exact by_contra fun hclosed ↦ not_endsOpen_substitute hclosed hopen
  · exact by_contra fun hother ↦ not_startsName_substitute hother hname

end Token

namespace Resolver

variable {r : Resolver} {u v : Text}

theorem not_collides_after (h : ¬Token.Collides u v) (n : Nat) :
    ¬Token.Collides (r.after n u) (r.after n v) := by
  induction n with
  | zero => exact h
  | succ n ih => exact Token.not_collides_substitute ih

theorem iterate_pass_append (h : ¬Token.Collides u v) (rounds : Nat) :
    r.pass^[rounds] (u ++ v) = r.pass^[rounds] u ++ r.pass^[rounds] v := by
  rw [← after_two_mul, ← after_two_mul, ← after_two_mul]
  refine (after_append_iff (2 * rounds)).mpr (fun n _ ↦ ?_) _ le_rfl
  exact Token.not_fuses_of_not_collides (not_collides_after h n)

/-! ## Variables that run together

Where a text ends in a dollar sign, perhaps with a name, and the next one starts with dollar signs
in front of a name, there are variables that make a token of the two. The name is replaced by new
names, one dollar sign after the other, until the last dollar sign of the first text is reached.
-/

/-- The names that stand behind the dollar signs, round after round. Each is longer than the one
before it, and all but the first are longer than `n`. -/
def stage (n m : Text) : Nat → Text
  | 0 => m
  | i + 1 => List.replicate (n.length + m.length + i + 1) 'a'

/-- Overrides that take every stage but the last to the next one, the last one to a mark, and the
name `n` to a lone dollar sign. -/
def ladder (n m : Text) (steps : Nat) : Bindings :=
  ⟨(if n = [] ∨ n = m then [] else [('$' :: n, ['!', '$'])]) ++
    (List.range (steps + 1)).map fun i ↦
      ('$' :: stage n m i, if i < steps then stage n m (i + 1) ++ ['!', '$'] else ['!'])⟩

/-- The ladder, with no variables of a document but the built-in ones. -/
def climber (n m : Text) (steps : Nat) : Resolver :=
  ⟨ladder n m steps, Bindings.builtin⟩

section Ladder

variable {n m : Text} {steps : Nat}

theorem length_stage_lt {i k : Nat} (h : i < k) : (stage n m i).length < (stage n m k).length := by
  obtain ⟨k, rfl⟩ := Nat.exists_eq_succ_of_ne_zero (Nat.ne_of_gt (Nat.zero_lt_of_lt h))
  cases i with
  | zero =>
    simp only [stage, List.length_replicate]
    omega
  | succ i =>
    simp only [stage, List.length_replicate]
    omega

theorem stage_injective : Function.Injective (stage n m) := by
  intro i k heq
  rcases Nat.lt_trichotomy i k with hlt | rfl | hlt
  · exact absurd (congrArg List.length heq) (Nat.ne_of_lt (length_stage_lt hlt))
  · rfl
  · exact absurd (congrArg List.length heq).symm (Nat.ne_of_lt (length_stage_lt hlt))

theorem stage_ne (hne : n ≠ m) (i : Nat) : stage n m i ≠ n := by
  cases i with
  | zero => exact hne.symm
  | succ i =>
    intro heq
    have hlength := congrArg List.length heq
    simp only [stage, List.length_replicate] at hlength
    omega

theorem isTokenChar_of_mem_stage_succ (i : Nat) :
    ∀ c ∈ stage n m (i + 1), Token.isTokenChar c = true := by
  intro c hc
  rw [stage, List.mem_replicate] at hc
  rw [hc.2]
  decide

theorem isTokenChar_of_mem_stage (hm : ∀ c ∈ m, Token.isTokenChar c = true) (i : Nat) :
    ∀ c ∈ stage n m i, Token.isTokenChar c = true := by
  cases i with
  | zero => exact hm
  | succ i => exact isTokenChar_of_mem_stage_succ i

theorem stage_ne_nil (hm : m ≠ []) (i : Nat) : stage n m i ≠ [] := by
  cases i with
  | zero => exact hm
  | succ i => simp [stage]

theorem nodup_ladder (n m : Text) (steps : Nat) : (ladder n m steps).names.Nodup := by
  have hstages : ((List.range (steps + 1)).map fun i ↦ '$' :: stage n m i).Nodup :=
    List.nodup_range.map fun i k heq ↦ stage_injective (List.cons.inj heq).2
  unfold ladder Bindings.names
  split
  · simpa [Function.comp_def] using hstages
  · next hnot =>
    have hne : n ≠ m := fun heq ↦ hnot (Or.inr heq)
    simp only [List.map_cons, List.map_map, Function.comp_def, List.singleton_append]
    refine List.nodup_cons.mpr ⟨fun hmem ↦ ?_, hstages⟩
    obtain ⟨i, -, hi⟩ := List.mem_map.mp hmem
    exact stage_ne hne i (List.cons.inj hi).2

theorem find?_ladder_stage {i : Nat} (hi : i < steps) :
    (ladder n m steps).find? ('$' :: stage n m i) = some (stage n m (i + 1) ++ ['!', '$']) := by
  refine Bindings.find?_of_mem (nodup_ladder n m steps) (List.mem_append_right _ ?_)
  exact List.mem_map.mpr ⟨i, List.mem_range.mpr (by omega), by simp [hi]⟩

theorem find?_ladder_last (n m : Text) (steps : Nat) :
    (ladder n m steps).find? ('$' :: stage n m steps) = some ['!'] := by
  refine Bindings.find?_of_mem (nodup_ladder n m steps) (List.mem_append_right _ ?_)
  exact List.mem_map.mpr ⟨steps, List.mem_range.mpr (by omega), by simp⟩

theorem find?_ladder_name (hnil : n ≠ []) (hne : n ≠ m) :
    (ladder n m steps).find? ('$' :: n) = some ['!', '$'] := by
  refine Bindings.find?_of_mem (nodup_ladder n m steps) (List.mem_append_left _ ?_)
  simp [hnil, hne]

theorem find?_builtin_stage (n m : Text) (i : Nat) :
    Bindings.builtin.find? ('$' :: stage n m (i + 1)) = none := by
  rw [Bindings.find?_eq_none_iff, stage, List.replicate_succ]
  simp [Bindings.names, Bindings.builtin]

theorem acyclic_climber (n m : Text) (steps : Nat) : (climber n m steps).Acyclic := by
  -- No value has a token in it.
  refine acyclic_of_rank (fun _ ↦ 0) fun entry hentry other hother ↦ ?_
  suffices hnil : Token.tokens entry.2 = [] by
    rw [hnil] at hother
    cases hother
  have hmark : Token.tokens ['!', '$'] = [] := by simp [Token.tokens]
  rcases List.mem_append.mp hentry with hladder | hbuiltin
  · rcases List.mem_append.mp hladder with hname | hstage
    · split at hname
      · cases hname
      · rw [List.mem_singleton.mp hname]
        exact hmark
    · obtain ⟨i, -, rfl⟩ := List.mem_map.mp hstage
      dsimp only
      split
      · have hdollar : '$' ∉ stage n m (i + 1) := by simp [stage]
        rw [Token.tokens_append (Token.not_extends_of_head _ (by simp [Token.isTokenChar_mark])),
          Token.tokens_of_not_mem hdollar, hmark]
        rfl
      · exact Token.tokens_of_not_mem (by decide)
  · have hplain : ∀ entry ∈ Bindings.builtin.entries, '$' ∉ entry.2 := by decide +kernel
    exact Token.tokens_of_not_mem (hplain entry hbuiltin)

section Climb

theorem pass_climber (n m : Text) (steps : Nat) (t : Text) :
    (climber n m steps).pass t =
      Token.substitute Bindings.builtin.find? (Token.substitute (ladder n m steps).find? t) := rfl

/-- A token that the built-in variables do not have stays as it is. -/
theorem substitute_builtin_stage (i a : Nat) (x : Text) :
    Token.substitute Bindings.builtin.find?
        (List.replicate a '$' ++ (stage n m (i + 1) ++ '!' :: x)) =
      List.replicate a '$' ++
        (stage n m (i + 1) ++ '!' :: Token.substitute Bindings.builtin.find? x) := by
  cases a with
  | zero =>
    have hdollar : '$' ∉ stage n m (i + 1) ++ ['!'] := by simp [stage]
    have hfront := Token.substitute_append_of_not_mem Bindings.builtin.find? hdollar x
    simpa using hfront
  | succ a =>
    have hne : stage n m (i + 1) ≠ [] := by simp [stage]
    have hreplace : Token.replacement Bindings.builtin.find? (stage n m (i + 1)) =
        '$' :: stage n m (i + 1) := by
      rw [Token.replacement, if_neg hne, find?_builtin_stage]
      rfl
    rw [List.replicate_succ', List.append_assoc, List.singleton_append,
      Token.substitute_dollars a (isTokenChar_of_mem_stage_succ i)
        (by simp [Token.isTokenChar_mark]),
      hreplace, Token.substitute_cons_of_ne _ (by decide)]
    simp

variable {u v w after : Text} {i a : Nat}

theorem replacement_ladder (hnil : m ≠ []) {value : Text}
    (h : (ladder n m steps).find? ('$' :: stage n m i) = some value) :
    Token.replacement (ladder n m steps).find? (stage n m i) = value := by
  rw [Token.replacement, if_neg (stage_ne_nil hnil i), h]
  rfl

variable (hm : ∀ c ∈ m, Token.isTokenChar c = true) (hnil : m ≠ [])
include hm hnil

/-- One round takes one dollar sign away from the second text and leaves the first one its own. -/
theorem pass_climb (hi : i < steps) (hafter : ∀ c ∈ after.head?, Token.isTokenChar c = false)
    (hu : Token.substitute (ladder n m steps).find? u = w ++ ['$'])
    (hv : v = List.replicate a '$' ++ '$' :: (stage n m i ++ after)) :
    ∃ front rest, (climber n m steps).pass u = front ++ ['$'] ∧
      (climber n m steps).pass v = List.replicate a '$' ++ (stage n m (i + 1) ++ '!' :: rest) ∧
      (climber n m steps).pass (u ++ v) =
        (climber n m steps).pass u ++ (climber n m steps).pass v := by
  have hoverv : Token.substitute (ladder n m steps).find? v =
      List.replicate a '$' ++ (stage n m (i + 1) ++
        '!' :: '$' :: Token.substitute (ladder n m steps).find? after) := by
    rw [hv, Token.substitute_dollars a (isTokenChar_of_mem_stage hm i) hafter,
      replacement_ladder hnil (find?_ladder_stage hi)]
    simp
  have hhead : ∀ c ∈ v.head?, Token.isTokenChar c = false := by
    rw [hv]
    cases a <;> simp [List.replicate_succ, Token.isTokenChar_dollar]
  -- The dollar sign at the end of the first text is one more in front of the stage.
  have hoverjoined : Token.substitute (ladder n m steps).find? (u ++ v) =
      w ++ (List.replicate (a + 1) '$' ++ (stage n m (i + 1) ++
        '!' :: '$' :: Token.substitute (ladder n m steps).find? after)) := by
    rw [Token.substitute_append (Token.not_extends_of_head u hhead), hu, hoverv]
    simp [List.replicate_succ]
  have hpassu : (climber n m steps).pass u =
      Token.substitute Bindings.builtin.find? w ++ ['$'] := by
    rw [pass_climber, hu, Token.substitute_append_dollar]
  have hpassv := pass_climber n m steps v
  rw [hoverv, substitute_builtin_stage] at hpassv
  refine ⟨_, _, hpassu, hpassv, ?_⟩
  have hdollar : ∀ x, ∀ c ∈ (List.replicate (a + 1) '$' ++ x).head?,
      Token.isTokenChar c = false := by
    simp [List.replicate_succ, Token.isTokenChar_dollar]
  rw [pass_climber, hoverjoined, Token.substitute_append (Token.not_extends_of_head w (hdollar _)),
    substitute_builtin_stage, hpassu, hpassv]
  simp [List.replicate_succ]

theorem iterate_pass_climb (hi : i < steps)
    (hafter : ∀ c ∈ after.head?, Token.isTokenChar c = false)
    (hu : Token.substitute (ladder n m steps).find? u = w ++ ['$'])
    (hv : v = List.replicate steps '$' ++ (m ++ after)) :
    ∃ front rest, (climber n m steps).pass^[i + 1] u = front ++ ['$'] ∧
      (climber n m steps).pass^[i + 1] v =
        List.replicate (steps - (i + 1)) '$' ++ (stage n m (i + 1) ++ '!' :: rest) ∧
      (climber n m steps).pass^[i + 1] (u ++ v) =
        (climber n m steps).pass^[i + 1] u ++ (climber n m steps).pass^[i + 1] v := by
  induction i with
  | zero =>
    obtain ⟨a, rfl⟩ := Nat.exists_eq_succ_of_ne_zero (Nat.ne_of_gt hi)
    refine pass_climb hm hnil hi hafter hu ?_
    rw [hv, List.replicate_succ']
    simp [stage]
  | succ i ih =>
    obtain ⟨front, rest, hpassu, hpassv, hjoined⟩ := ih (by omega)
    have hsteps : steps - (i + 1) = steps - (i + 2) + 1 := by omega
    have hmark : ∀ c ∈ ('!' :: rest).head?, Token.isTokenChar c = false := by
      simp [Token.isTokenChar_mark]
    rw [hsteps, List.replicate_succ', List.append_assoc, List.singleton_append] at hpassv
    have hoveru : Token.substitute (ladder n m steps).find? ((climber n m steps).pass^[i + 1] u) =
        Token.substitute (ladder n m steps).find? front ++ ['$'] := by
      rw [hpassu, Token.substitute_append_dollar]
    simp only [Function.iterate_succ_apply' _ (i + 1), hjoined]
    exact pass_climb hm hnil hi hmark hoveru hpassv

/-- In the round after the last step the joined texts have a mark where the others have the dollar
sign and the last stage. -/
theorem pass_climbed (front rest : Text) :
    (climber n m steps).pass ((front ++ ['$']) ++ (stage n m steps ++ '!' :: rest)) =
      (climber n m steps).pass front ++ '!' :: (climber n m steps).pass ('!' :: rest) := by
  have hjoined : (front ++ ['$']) ++ (stage n m steps ++ '!' :: rest) =
      front ++ (List.replicate 0 '$' ++ '$' :: (stage n m steps ++ '!' :: rest)) := by
    simp
  have hmark : ∀ x, ∀ c ∈ ('!' :: x).head?, Token.isTokenChar c = false := by
    simp [Token.isTokenChar_mark]
  rw [hjoined, pass_climber, Token.substitute_append (Token.not_extends_of_head front (by
      simp [Token.isTokenChar_dollar])),
    Token.substitute_dollars 0 (isTokenChar_of_mem_stage hm steps) (hmark rest),
    replacement_ladder hnil (find?_ladder_last n m steps), List.replicate_zero, List.nil_append,
    List.singleton_append, Token.substitute_append (Token.not_extends_of_head _ (hmark _)),
    Token.substitute_cons_of_ne _ (by decide)]
  rfl

end Climb

/-- What the first text ends in becomes a dollar sign at its end. -/
theorem exists_substitute_ladder (hsteps : 0 < steps) (hn : ∀ c ∈ n, Token.isTokenChar c = true)
    (front : Text) :
    ∃ w, Token.substitute (ladder n m steps).find? (front ++ '$' :: n) = w ++ ['$'] := by
  have hdollar : ∀ c ∈ ('$' :: n).head?, Token.isTokenChar c = false := by
    simp [Token.isTokenChar_dollar]
  rw [Token.substitute_append (Token.not_extends_of_head front hdollar),
    Token.substitute_dollar_name hn, Token.replacement]
  by_cases hempty : n = []
  · exact ⟨_, by rw [if_pos hempty]⟩
  · rw [if_neg hempty]
    by_cases heq : n = m
    · have hfind : (ladder n m steps).find? ('$' :: n) = some (stage n m 1 ++ ['!', '$']) := by
        rw [heq]
        exact find?_ladder_stage hsteps
      rw [hfind]
      exact ⟨Token.substitute (ladder n m steps).find? front ++ (stage n m 1 ++ ['!']), by simp⟩
    · rw [find?_ladder_name hempty heq]
      exact ⟨Token.substitute (ladder n m steps).find? front ++ ['!'], by simp⟩

end Ladder

/-! ## What stands next to a text -/

section Rounds

variable (r : Resolver) (rounds : Nat)

theorem iterate_pass_of_not_mem {t : Text} (h : '$' ∉ t) : r.pass^[rounds] t = t := by
  refine Function.iterate_fixed ?_ rounds
  rw [pass, Token.substitute_of_not_mem _ h, Token.substitute_of_not_mem _ h]

theorem iterate_pass_front {t : Text} (h : '$' ∉ t) (rest : Text) :
    r.pass^[rounds] (t ++ rest) = t ++ r.pass^[rounds] rest := by
  have hclosed : ¬Token.EndsOpen t := by
    rintro ⟨front, name, rfl, -⟩
    simp at h
  rw [iterate_pass_append fun hcollides ↦ hclosed hcollides.1, iterate_pass_of_not_mem r rounds h]

theorem iterate_pass_append_dollar (t : Text) :
    r.pass^[rounds] (t ++ ['$']) = r.pass^[rounds] t ++ ['$'] := by
  have hname : ¬Token.StartsName ['$'] := by simp [Token.StartsName]
  have hfixed : r.pass ['$'] = ['$'] := by
    have hend := fun lookup ↦ Token.substitute_append_dollar lookup []
    simp only [List.nil_append, Token.substitute_nil] at hend
    rw [pass, hend, hend]
  rw [iterate_pass_append fun h ↦ hname h.2, Function.iterate_fixed hfixed]

theorem iterate_pass_append_mark (t rest : Text) :
    r.pass^[rounds] (t ++ '!' :: rest) = r.pass^[rounds] t ++ '!' :: r.pass^[rounds] rest := by
  have hname : ¬Token.StartsName ('!' :: rest) := by
    simp [Token.startsName_cons_of_ne, Token.isTokenChar_mark]
  rw [iterate_pass_append fun h ↦ hname h.2]
  exact congrArg _ (iterate_pass_front r rounds (by decide : '$' ∉ ['!']) rest)

end Rounds

/-- Where what two texts become may run together, there are variables with which it does. -/
theorem exists_apply_ne (hopen : Token.EndsOpen u) (hname : Token.StartsName v)
    (hextends : ¬Token.Extends u v) :
    ∃ r : Resolver, r.Acyclic ∧ r.apply (u ++ v) ≠ r.apply u ++ r.apply v := by
  obtain ⟨front, n, hu, hn⟩ := id hopen
  obtain ⟨steps, m, after, hv, hnil, hm, hafter⟩ := hname.exists_eq
  have hsteps : steps ≠ 0 := by
    rintro rfl
    obtain ⟨c, m, rfl⟩ := List.exists_cons_of_ne_nil hnil
    exact hextends ⟨hopen, c, by simp [hv], hm c (by simp)⟩
  obtain ⟨i, rfl⟩ := Nat.exists_eq_succ_of_ne_zero hsteps
  obtain ⟨w, hw⟩ := exists_substitute_ladder (m := m) (Nat.zero_lt_succ i) hn front
  rw [← hu] at hw
  obtain ⟨last, rest, hlastu, hlastv, hjoined⟩ :=
    iterate_pass_climb hm hnil (Nat.lt_succ_self i) hafter hw hv
  rw [Nat.sub_self, List.replicate_zero, List.nil_append] at hlastv
  -- The rounds that are left after the last step: one in which the token is there, and some more.
  have hrounds : i + 2 ≤ (ladder n m (i + 1)).size + Bindings.builtin.size + 1 := by
    simp only [ladder, Bindings.size, List.length_append, List.length_map, List.length_range]
    omega
  obtain ⟨extra, hextra⟩ := Nat.exists_eq_add_of_le' hrounds
  have happly : ∀ t, (climber n m (i + 1)).apply t =
      (climber n m (i + 1)).pass^[extra + 1] ((climber n m (i + 1)).pass^[i + 1] t) := by
    intro t
    rw [apply_eq_iterate, ← Function.iterate_add_apply]
    exact congrArg (fun rounds ↦ (climber n m (i + 1)).pass^[rounds] t) (by
      rw [climber, hextra]
      omega)
  have hdollar : '$' ∉ stage n m (i + 1) :=
    Token.dollar_not_mem_of_isTokenChar (isTokenChar_of_mem_stage hm (i + 1))
  refine ⟨climber n m (i + 1), acyclic_climber n m (i + 1), fun heq ↦ ?_⟩
  rw [happly, happly, happly, hjoined, hlastu, hlastv, iterate_pass_append_dollar,
    iterate_pass_front _ _ hdollar, Function.iterate_succ_apply, pass_climbed hm hnil,
    iterate_pass_append_mark, ← Function.iterate_succ_apply, List.append_assoc] at heq
  have hcancel := List.append_cancel_left heq
  simp at hcancel

/-- Two texts that do not extend each other's tokens are resolved apart whatever the variables are,
exactly if what they become cannot run together. -/
theorem forall_apply_append_iff (h : ¬Token.Extends u v) :
    (∀ r : Resolver, r.Acyclic → r.apply (u ++ v) = r.apply u ++ r.apply v) ↔
      ¬Token.Collides u v := by
  constructor
  · rintro hall ⟨hopen, hname⟩
    obtain ⟨r, hacyclic, hne⟩ := exists_apply_ne hopen hname h
    exact hne (hall r hacyclic)
  · intro hcollides r _
    rw [apply_eq_iterate, apply_eq_iterate, apply_eq_iterate]
    exact iterate_pass_append hcollides _

end Resolver

end StyledMarkup
