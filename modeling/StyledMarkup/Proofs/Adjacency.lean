import StyledMarkup.Proofs.Resolution

/-!
# Variables side by side

Every round reads the whole text again, so values that were put in side by side can make a new
token together: with `$base` for `$gap` and `px` for `$unit`, what stands for `$gap$unit` is the
token `$basepx`, which nobody knows. Main statement: this is the only way in which a text depends on
what stands next to it. As long as the ends that meet do not fuse to such a token, joined texts are
replaced as they are apart, and where they never do, they are resolved apart.
-/

namespace StyledMarkup

namespace Token

variable {lookup : Text → Option Text} {u v : Text}

/-- The name behind the last dollar sign, where nothing but token characters follows it. -/
def openName? (u : Text) : Option Text :=
  if (u.rdropWhile isTokenChar).getLast? = some '$' then some (u.rtakeWhile isTokenChar) else none

/-- The token characters at the start of `v` lengthen what `u` ends in, and the longer token is
replaced by something else than the shorter one with these characters after it. -/
def Fuses (lookup : Text → Option Text) (u v : Text) : Prop :=
  ∃ name ∈ openName? u,
    replacement lookup (name ++ v.takeWhile isTokenChar) ≠
      replacement lookup name ++ v.takeWhile isTokenChar

instance (lookup : Text → Option Text) (u v : Text) : Decidable (Fuses lookup u v) :=
  inferInstanceAs (Decidable (∃ name ∈ openName? u, _))

/-- The last character that is no token character decides how a text ends. -/
theorem openName?_append {front run : Text} {d : Char} (hd : isTokenChar d = false)
    (hrun : ∀ c ∈ run, isTokenChar c = true) :
    openName? (front ++ d :: run) = if d = '$' then some run else none := by
  have hreverse : (front ++ d :: run).reverse = run.reverse ++ d :: front.reverse := by simp
  have hall : ∀ c ∈ run.reverse, isTokenChar c = true := by simpa using hrun
  have hstop : ∀ c ∈ (d :: front.reverse).head?, isTokenChar c = false := by simpa using hd
  simp [openName?, List.rdropWhile, List.rtakeWhile, hreverse, Text.takeWhile_run hall hstop,
    Text.dropWhile_run hall hstop]

theorem mem_openName?_iff {name : Text} :
    name ∈ openName? u ↔
      (∃ front, u = front ++ '$' :: name) ∧ ∀ c ∈ name, isTokenChar c = true := by
  constructor
  · intro h
    rw [openName?] at h
    split at h
    · next hlast =>
      obtain rfl := Option.some.inj h
      obtain ⟨front, hfront⟩ := List.getLast?_eq_some_iff.mp hlast
      have hsplit : u.rdropWhile isTokenChar ++ u.rtakeWhile isTokenChar = u :=
        List.rdropWhile_append_rtakeWhile
      rw [hfront, List.append_assoc, List.singleton_append] at hsplit
      exact ⟨⟨front, hsplit.symm⟩, fun c hc ↦ List.mem_rtakeWhile_imp hc⟩
    · cases h
  · rintro ⟨⟨front, rfl⟩, hname⟩
    rw [openName?_append isTokenChar_dollar hname]
    rfl

theorem endsOpen_iff : EndsOpen u ↔ ∃ name, name ∈ openName? u := by
  simp only [mem_openName?_iff, EndsOpen]
  grind

theorem Fuses.extends (h : Fuses lookup u v) : Extends u v := by
  obtain ⟨name, hname, hne⟩ := h
  refine ⟨endsOpen_iff.mpr ⟨name, hname⟩, ?_⟩
  cases v with
  | nil => simp at hne
  | cons c v =>
    refine ⟨c, rfl, ?_⟩
    by_contra hc
    simp [hc] at hne

theorem substitute_dollar_run {name after : Text} (hname : ∀ c ∈ name, isTokenChar c = true)
    (hafter : ∀ c ∈ after.head?, isTokenChar c = false) :
    substitute lookup ('$' :: (name ++ after)) =
      replacement lookup name ++ substitute lookup after := by
  rw [substitute_dollar, Text.takeWhile_run hname hafter, Text.dropWhile_run hname hafter]

theorem substitute_dollar_name {name : Text} (h : ∀ c ∈ name, isTokenChar c = true) :
    substitute lookup ('$' :: name) = replacement lookup name := by
  rw [substitute_dollar, List.takeWhile_eq_self_iff.mpr h, List.dropWhile_eq_nil_iff.mpr h,
    substitute_nil, List.append_nil]

/-- Joined texts are replaced as they are apart, exactly if they do not fuse. -/
theorem substitute_append_iff :
    substitute lookup (u ++ v) = substitute lookup u ++ substitute lookup v ↔
      ¬Fuses lookup u v := by
  cases hopen : openName? u with
  | none =>
    have hextends : ¬Extends u v := by
      rintro ⟨hends, -⟩
      simpa [hopen] using endsOpen_iff.mp hends
    exact iff_of_true (substitute_append hextends) fun hfuses ↦ hextends hfuses.extends
  | some name =>
    obtain ⟨⟨front, rfl⟩, hname⟩ := mem_openName?_iff.mp hopen
    obtain ⟨run, after, rfl, hrun, hafter⟩ : ∃ run after, v = run ++ after ∧
        (∀ c ∈ run, isTokenChar c = true) ∧ ∀ c ∈ after.head?, isTokenChar c = false :=
      ⟨v.takeWhile isTokenChar, v.dropWhile isTokenChar, List.takeWhile_append_dropWhile.symm,
        fun c hc ↦ List.mem_takeWhile_imp hc, Text.head?_dropWhile isTokenChar v⟩
    have hfuses : Fuses lookup (front ++ '$' :: name) (run ++ after) ↔
        replacement lookup (name ++ run) ≠ replacement lookup name ++ run := by
      simp [Fuses, hopen, Text.takeWhile_run hrun hafter]
    have hfront : ∀ rest, substitute lookup (front ++ '$' :: rest) =
        substitute lookup front ++ substitute lookup ('$' :: rest) := fun rest ↦
      substitute_append (not_extends_of_head front (by simp [isTokenChar_dollar]))
    have hlonger : ∀ c ∈ name ++ run, isTokenChar c = true := by
      intro c hc
      exact (List.mem_append.mp hc).elim (hname c) (hrun c)
    have hjoined : front ++ '$' :: name ++ (run ++ after) =
        front ++ '$' :: (name ++ run ++ after) := by simp
    rw [hfuses, not_not, hjoined, hfront, substitute_dollar_run hlonger hafter, hfront,
      substitute_dollar_name hname,
      substitute_append_of_not_mem lookup (dollar_not_mem_of_isTokenChar hrun), List.append_assoc,
      List.append_cancel_left_eq, ← List.append_assoc, List.append_cancel_right_eq]

end Token

namespace Resolver

variable {r : Resolver} {u v : Text}

/-- What a half round puts in: by turns the values of the caller and those of the document. -/
def lookupAt (r : Resolver) (n : Nat) : Text → Option Text :=
  if n % 2 = 0 then r.overrides.find? else r.table.find?

/-- The text after some half rounds. -/
def after (r : Resolver) : Nat → Text → Text
  | 0, t => t
  | n + 1, t => Token.substitute (r.lookupAt n) (r.after n t)

/-- Two for the first round and two for each variable. -/
def halfRounds (r : Resolver) : Nat :=
  2 * (r.overrides.size + r.table.size + 1)

theorem after_two_mul (r : Resolver) (rounds : Nat) (t : Text) :
    r.after (2 * rounds) t = r.pass^[rounds] t := by
  induction rounds with
  | zero => rfl
  | succ rounds ih =>
    have hodd : (2 * rounds + 1) % 2 = 1 := by omega
    rw [Function.iterate_succ_apply', ← ih]
    simp [Nat.mul_succ, after, lookupAt, hodd, pass]

theorem apply_eq_after (r : Resolver) (t : Text) : r.apply t = r.after r.halfRounds t := by
  rw [apply_eq_iterate, halfRounds, after_two_mul]

/-- Up to a half round, joined texts go the way they go apart, exactly if they have not fused. -/
theorem after_append_iff (steps : Nat) :
    (∀ n ≤ steps, r.after n (u ++ v) = r.after n u ++ r.after n v) ↔
      ∀ n < steps, ¬Token.Fuses (r.lookupAt n) (r.after n u) (r.after n v) := by
  induction steps with
  | zero => simp [after]
  | succ steps ih =>
    rw [Nat.forall_lt_succ_right, ← ih]
    simp only [← Nat.lt_succ_iff]
    rw [Nat.forall_lt_succ_right]
    refine and_congr_right fun hbefore ↦ ?_
    have hjoined := hbefore steps (Nat.lt_succ_self steps)
    simp only [after]
    rw [hjoined, Token.substitute_append_iff]

/-- What the two texts become does not fuse in any half round. -/
def KeepsApart (r : Resolver) (u v : Text) : Prop :=
  ∀ n < r.halfRounds, ¬Token.Fuses (r.lookupAt n) (r.after n u) (r.after n v)

instance (r : Resolver) (u v : Text) : Decidable (r.KeepsApart u v) :=
  inferInstanceAs (Decidable (∀ n < r.halfRounds, _))

/-- Texts are kept apart exactly if, half round after half round, the joined text goes the way they
go apart. Then they are resolved apart. -/
theorem apply_append_of_keepsApart (r : Resolver) (u v : Text) :
    (r.KeepsApart u v ↔ ∀ n ≤ r.halfRounds, r.after n (u ++ v) = r.after n u ++ r.after n v) ∧
      (r.KeepsApart u v → r.apply (u ++ v) = r.apply u ++ r.apply v) := by
  have hall : r.KeepsApart u v ↔
      ∀ n ≤ r.halfRounds, r.after n (u ++ v) = r.after n u ++ r.after n v :=
    (after_append_iff r.halfRounds).symm
  refine ⟨hall, fun hapart ↦ ?_⟩
  rw [apply_eq_after, apply_eq_after, apply_eq_after]
  exact hall.mp hapart r.halfRounds le_rfl

/-- A gap with the value of another variable, and a unit. -/
def spacing : Resolver :=
  ⟨{}, Bindings.builtin.insertAll [("$gap".toList, "$base".toList), ("$base".toList, "4".toList),
    ("$unit".toList, "px".toList)]⟩

/-- Both values go in at once, so there is nothing to fuse. -/
theorem apply_append_of_keepsApart_spacing :
    spacing.KeepsApart "$base".toList "$unit".toList ∧
      spacing.apply "$base$unit".toList =
        spacing.apply "$base".toList ++ spacing.apply "$unit".toList ∧
      spacing.apply "$base$unit".toList = "4px".toList := by
  have hapart : spacing.KeepsApart "$base".toList "$unit".toList := by decide +kernel
  have hbase : spacing.apply "$base".toList = "4".toList := by decide +kernel
  have hunit : spacing.apply "$unit".toList = "px".toList := by decide +kernel
  have hjoined : spacing.apply "$base$unit".toList =
      spacing.apply "$base".toList ++ spacing.apply "$unit".toList :=
    (apply_append_of_keepsApart spacing "$base".toList "$unit".toList).2 hapart
  refine ⟨hapart, hjoined, ?_⟩
  rw [hjoined, hbase, hunit]
  rfl

/-- The unit comes to stand behind a token that came in with the gap and is not resolved yet. -/
theorem not_forall_apply_append :
    ¬∀ (r : Resolver) (u v : Text), r.Acyclic → ¬Token.Extends u v →
      r.apply (u ++ v) = r.apply u ++ r.apply v := by
  intro hall
  have hacyclic : spacing.Acyclic :=
    acyclic_of_rank (fun name ↦ if name = "$gap".toList then 1 else 0) (by decide +kernel)
  have hextends : ¬Token.Extends "$gap".toList "$unit".toList :=
    Token.not_extends_of_head _ (by simp [Token.isTokenChar_dollar])
  have hboth : spacing.apply "$gap$unit".toList = "$basepx".toList := by decide +kernel
  have hgap : spacing.apply "$gap".toList = "4".toList := by decide +kernel
  have hunit : spacing.apply "$unit".toList = "px".toList := by decide +kernel
  have hsame : spacing.apply "$gap$unit".toList =
      spacing.apply "$gap".toList ++ spacing.apply "$unit".toList :=
    hall spacing _ _ hacyclic hextends
  rw [hboth, hgap, hunit] at hsame
  revert hsame
  decide

end Resolver

end StyledMarkup
