import StyledMarkup.Proofs.Builder.Echo
import StyledMarkup.Proofs.Separation

/-!
# Balanced braces

Among statements that are neither directives nor declarations without a value, the braces alone
decide whether there is a document: there is one exactly if each block is closed and nothing else
is. The depth of a node is then the number of blocks that are open where its statement stands.
Otherwise the error names the first brace that closes nothing, or, if there is no such brace, the
innermost block that is left open.
-/

namespace StyledMarkup

/-! ## Balanced statements -/

namespace Statement

/-- Every block that is opened is closed again, and nothing else is closed. -/
inductive Balanced : List Statement → Prop
  | nil : Balanced []
  | line {s : Statement} {rest : List Statement} (hopens : s.opens = false)
    (hcloses : s.closes = false) (hrest : Balanced rest) : Balanced (s :: rest)
  | block {opener closer : Statement} {body rest : List Statement} (hopens : opener.opens = true)
    (hbody : Balanced body) (hcloses : closer.closes = true) (hrest : Balanced rest) :
    Balanced (opener :: (body ++ closer :: rest))

theorem Balanced.append {front back : List Statement} (h : Balanced front)
    (hback : Balanced back) : Balanced (front ++ back) := by
  induction h with
  | nil => exact hback
  | line hopens hcloses _ ih => exact .line hopens hcloses ih
  | block hopens hbody hcloses _ _ ih =>
    rw [List.cons_append, List.append_assoc, List.cons_append]
    exact .block hopens hbody hcloses ih

/-- Nothing is closed that is not open, and the blocks left open are those of `unclosed`, the
innermost first. -/
inductive Leaves : List Statement → List Statement → Prop
  | balanced {word : List Statement} (h : Balanced word) : Leaves word []
  | opener {front body unclosed : List Statement} {s : Statement} (hfront : Leaves front unclosed)
    (hopens : s.opens = true) (hbody : Balanced body) : Leaves (front ++ s :: body) (s :: unclosed)

namespace Leaves

variable {word unclosed : List Statement} {s : Statement}

theorem append_balanced (h : Leaves word unclosed) {more : List Statement} (hmore : Balanced more) :
    Leaves (word ++ more) unclosed := by
  cases h with
  | balanced h => exact .balanced (h.append hmore)
  | opener hfront hopens hbody =>
    rw [List.append_assoc, List.cons_append]
    exact .opener hfront hopens (hbody.append hmore)

theorem append_opener (h : Leaves word unclosed) (hopens : s.opens = true) :
    Leaves (word ++ [s]) (s :: unclosed) :=
  .opener h hopens .nil

theorem append_line (h : Leaves word unclosed) (hopens : s.opens = false)
    (hcloses : s.closes = false) : Leaves (word ++ [s]) unclosed :=
  h.append_balanced (.line hopens hcloses .nil)

/-- A closing brace closes the innermost block. -/
theorem append_closer {opener : Statement} (h : Leaves word (opener :: unclosed))
    (hcloses : s.closes = true) : Leaves (word ++ [s]) unclosed := by
  cases h with
  | opener hfront hopens hbody =>
    rw [List.append_assoc, List.cons_append]
    exact hfront.append_balanced (.block hopens hbody hcloses .nil)

end Leaves

/-- The brace `s` closes nothing, and what stands before it is balanced. -/
def Unmatched (word : List Statement) (s : Statement) : Prop :=
  ∃ front back, word = front ++ s :: back ∧ s.closes = true ∧ Balanced front

/-- The block of `s` is left open, and what stands inside it is balanced. -/
def Unclosed (word : List Statement) (s : Statement) : Prop :=
  ∃ front back, word = front ++ s :: back ∧ s.opens = true ∧ Balanced back

end Statement

open Statement

/-- The statement that a node stands for. -/
def Node.statement (n : Node) : Statement :=
  ⟨n.raw, n.line⟩

namespace Builder

/-! ## Comments -/

theorem refuses_eq_false_of_isComment {s : Statement} (hs : s.isComment = true) (b : Builder) :
    b.refuses s = false := by
  cases hcloses : s.closes with
  | false => simp [refuses, hcloses]
  | true =>
    have htext : s.text = ['}'] := by simpa [Statement.closes] using hcloses
    rw [Statement.isComment, htext] at hs
    cases hs

theorem exists_split_of_filter {statements front back : List Statement} {s : Statement}
    (h : (statements.filter fun s ↦ !s.isComment) = front ++ s :: back) :
    ∃ front' back', statements = front' ++ s :: back' ∧
      (front'.filter fun s ↦ !s.isComment) = front := by
  obtain ⟨front', rest, rfl, rfl, hrest⟩ := List.filter_eq_append_iff.mp h
  obtain ⟨skipped, back', rfl, hskipped, -, -⟩ := List.filter_eq_cons_iff.mp hrest
  refine ⟨front' ++ skipped, back', by simp, ?_⟩
  rw [List.filter_append, List.filter_eq_nil_iff.mpr hskipped, List.append_nil]

theorem takeAll_filter (b : Builder) (statements : List Statement) :
    b.takeAll (statements.filter fun s ↦ !s.isComment) = b.takeAll statements := by
  induction statements generalizing b with
  | nil => rfl
  | cons s rest ih =>
    by_cases hs : s.isComment = true
    · rw [List.filter_cons_of_neg (by simp [hs]), ih,
        takeAll_cons (refuses_eq_false_of_isComment hs b), takeIn, if_pos hs]
    · rw [List.filter_cons_of_pos (by simpa using hs), takeAll, takeAll]
      split
      · rfl
      · exact ih _

/-! ## Statements that leave no attribute open -/

/-- No statement that is taken in declares an attribute without a value. -/
def Supplied (b : Builder) (statements : List Statement) : Prop :=
  ∀ front s back c, statements = front ++ s :: back → b.takeAll front = some c →
    ∀ name isEvent, c.scope.classify s.text ≠ .attribute name [] isEvent

namespace Supplied

variable {b c : Builder} {front back : List Statement}

theorem left (h : b.Supplied (front ++ back)) : b.Supplied front := by
  rintro front s mid c rfl
  exact h front s (mid ++ back) c (by simp)

theorem right (h : b.Supplied (front ++ back)) (hc : b.takeAll front = some c) :
    c.Supplied back := by
  rintro front' s back c' rfl hc'
  refine h (front ++ front') s back c' (by simp) ?_
  rw [takeAll_append, hc]
  exact hc'

theorem tail {s : Statement} (h : b.Supplied (s :: back)) (hs : b.refuses s = false) :
    (b.takeIn s).Supplied back := by
  have hlist : b.Supplied ([s] ++ back) := h
  exact hlist.right (takeAll_cons hs [])

theorem filter {statements : List Statement} (h : b.Supplied statements) :
    b.Supplied (statements.filter fun s ↦ !s.isComment) := by
  intro front s back c hsplit hc
  obtain ⟨front', back', rfl, rfl⟩ := exists_split_of_filter hsplit
  exact h front' s back' c rfl (takeAll_filter b front' ▸ hc)

theorem openName_takeIn {s : Statement} (h : b.Supplied (s :: back)) (hs : s.isComment = false)
    (hname : b.openName = none) : (b.takeIn s).openName = none := by
  exact openName_takeIn_of_classify hs hname (h [] s back b rfl rfl)

end Supplied

/-! ## The braces of the statements taken in -/

/-- The builder holds a node for each statement of the list, and the blocks that the list leaves
open. -/
structure Tracks (b : Builder) (word : List Statement) : Prop where
  housed : b.Housed
  chained : b.Chained
  openName_eq : b.openName = none
  size_eq : b.doc.size = word.length
  nodes : ∀ i : Nat, (b.doc.get? i).map Node.statement = word[i]?
  leaves : Leaves word (b.scopes.filterMap fun i ↦ word[i]?)
  level : b.scopes.length + word.countP Statement.closes = word.countP Statement.opens
  depth : ∀ i < word.length, b.doc.depth i + (word.take i).countP Statement.closes =
    (word.take i).countP Statement.opens

theorem tracks_nil : ({} : Builder).Tracks [] where
  housed := housed_empty
  chained := chained_empty
  openName_eq := rfl
  size_eq := rfl
  nodes := by simp [Document.get?]
  leaves := .balanced .nil
  level := rfl
  depth := by simp

namespace Tracks

variable {b c : Builder} {word : List Statement} {s : Statement} (h : b.Tracks word)
include h

theorem filterMap_append (s : Statement) :
    (b.scopes.filterMap fun i ↦ (word ++ [s])[i]?) = b.scopes.filterMap fun i ↦ word[i]? := by
  apply List.filterMap_congr
  intro i hi
  have hlt : i < word.length := h.size_eq ▸ h.housed.lt_size hi
  exact List.getElem?_append_left hlt

/-- The blocks that are open after one more statement. -/
theorem scopes_takeIn (hs : s.isComment = false) :
    (b.takeIn s).scopes =
      if s.opens then b.doc.size :: b.scopes
      else if s.closes then b.scopes.tail else b.scopes := by
  rw [b.scopes_takeIn hs, h.openName_eq]
  rfl

theorem leaves_takeIn (hs : s.isComment = false) (hrefuses : b.refuses s = false) :
    Leaves (word ++ [s]) ((b.takeIn s).scopes.filterMap fun i ↦ (word ++ [s])[i]?) := by
  rw [h.scopes_takeIn hs]
  split
  · next hopens =>
    have hnew : (word ++ [s])[b.doc.size]? = some s := by simp [h.size_eq]
    rw [List.filterMap_cons_some hnew, h.filterMap_append]
    exact h.leaves.append_opener hopens
  · next hopens =>
    split
    · next hcloses =>
      have hne : b.scopes ≠ [] := by simpa [refuses, hcloses, h.openName_eq] using hrefuses
      obtain ⟨i, outer, hscopes⟩ := List.exists_cons_of_ne_nil hne
      have hi : i < word.length := h.size_eq ▸ h.housed.lt_size (hscopes ▸ List.mem_cons_self)
      have hleaves := h.leaves
      have hsame := h.filterMap_append s
      rw [hscopes, List.filterMap_cons_some (List.getElem?_eq_getElem hi)] at hleaves
      rw [hscopes, List.tail_cons]
      rw [hscopes, List.filterMap_cons_some (List.getElem?_append_left hi ▸
        List.getElem?_eq_getElem hi),
        List.filterMap_cons_some (List.getElem?_eq_getElem hi)] at hsame
      rw [(List.cons.inj hsame).2]
      exact hleaves.append_closer hcloses
    · next hcloses =>
      rw [h.filterMap_append]
      exact h.leaves.append_line (Bool.of_not_eq_true hopens) (Bool.of_not_eq_true hcloses)

theorem level_takeIn (hs : s.isComment = false) (hrefuses : b.refuses s = false) :
    (b.takeIn s).scopes.length + (word ++ [s]).countP Statement.closes =
      (word ++ [s]).countP Statement.opens := by
  have hlevel := h.level
  rw [h.scopes_takeIn hs, List.countP_append, List.countP_append, List.countP_singleton,
    List.countP_singleton]
  by_cases hopens : s.opens = true
  · rw [if_pos hopens, if_pos hopens, not_closes_of_opens hopens, if_neg Bool.false_ne_true,
      List.length_cons]
    omega
  · rw [if_neg hopens, if_neg hopens]
    by_cases hcloses : s.closes = true
    · have hne : b.scopes ≠ [] := by simpa [refuses, hcloses, h.openName_eq] using hrefuses
      have hpos := List.length_pos_iff.mpr hne
      rw [if_pos hcloses, if_pos hcloses, List.length_tail]
      omega
    · rw [if_neg hcloses, if_neg hcloses]
      omega

/-- One more statement that is neither refused nor leaves an attribute open. -/
theorem takeIn (hs : s.isComment = false) (hrefuses : b.refuses s = false)
    (hname : (b.takeIn s).openName = none) : (b.takeIn s).Tracks (word ++ [s]) := by
  have hlt := h.housed.head?_lt
  have hall : ∀ i ∈ b.scopes, i < b.doc.size := fun i ↦ h.housed.lt_size
  have hdoc := b.doc_takeIn hs
  refine ⟨h.housed.takeIn s, ?_, hname, ?_, ?_, h.leaves_takeIn hs hrefuses,
    h.level_takeIn hs hrefuses, ?_⟩
  · refine h.chained.grow hall hdoc ?_
    rw [h.scopes_takeIn hs]
    split
    · exact List.suffix_refl _
    · split
      · exact (List.tail_suffix _).trans (List.suffix_cons _ _)
      · exact List.suffix_cons _ _
  · simp [hdoc, h.size_eq]
  · intro i
    rw [hdoc, Document.map_get?_graft b.doc s _ false false
      (by intro n id asAttribute; cases asAttribute <;> rfl) hlt, h.nodes, h.size_eq]
    split
    · next hi => simp [hi, Node.statement, Document.leaf]
    · next hi =>
      rcases Nat.lt_or_gt_of_ne hi with hi | hi
      · rw [List.getElem?_append_left hi]
      · rw [List.getElem?_eq_none (Nat.le_of_lt hi), List.getElem?_eq_none]
        rw [List.length_append, List.length_singleton]
        exact hi
  · intro i hi
    rw [List.length_append, List.length_singleton] at hi
    rw [hdoc, List.take_append_of_le_length (Nat.le_of_lt_succ hi)]
    rcases Nat.lt_succ_iff_lt_or_eq.mp hi with hi | rfl
    · rw [Stylesheet.depth_graft h.housed.linked hlt s _ false false (h.size_eq ▸ hi)]
      exact h.depth i hi
    · rw [List.take_length, ← h.size_eq,
        h.chained.depth_graft_size h.housed.linked hall s _ false false]
      exact h.level

theorem takeAll {more : List Statement} (hcomments : ∀ s ∈ more, s.isComment = false)
    (hsupplied : b.Supplied more) (hc : b.takeAll more = some c) : c.Tracks (word ++ more) := by
  induction more generalizing b word with
  | nil =>
    obtain rfl := Option.some.inj hc
    rw [List.append_nil]
    exact h
  | cons s rest ih =>
    rw [List.forall_mem_cons] at hcomments
    obtain ⟨hrefuses, hc⟩ := takeAll_cons_eq_some hc
    have hstep := h.takeIn hcomments.1 hrefuses
      (hsupplied.openName_takeIn hcomments.1 h.openName_eq)
    have hall := ih hstep hcomments.2 (hsupplied.tail hrefuses) hc
    rwa [List.append_assoc] at hall

/-- There is a document when no block is left open, and otherwise the innermost one is named. -/
theorem finish_eq : b.finish = .ok b.doc ∧ Balanced word ∨
    ∃ s, Unclosed word s ∧ b.finish = .error (.ofStatement .unbalancedBraces s) := by
  have hopen : b.openAttribute = none := by simpa [openName] using h.openName_eq
  have hleaves := h.leaves
  cases hscopes : b.scopes with
  | nil =>
    rw [hscopes] at hleaves
    cases hleaves with
    | balanced hword => exact Or.inl ⟨by simp [finish, hopen, hscopes], hword⟩
  | cons i outer =>
    obtain ⟨n, hn⟩ := Document.exists_get? (h.housed.lt_size (hscopes ▸ List.mem_cons_self))
    have hnode := h.nodes i
    rw [hn, Option.map_some] at hnode
    rw [hscopes, List.filterMap_cons_some hnode.symm] at hleaves
    cases hleaves with
    | @opener front body _ _ _ hopens hbody =>
      refine Or.inr ⟨n.statement, ⟨front, body, rfl, hopens, hbody⟩, ?_⟩
      simp [finish, hopen, hscopes, hn, ParseError.ofStatement, Node.statement]

end Tracks

/-- Balanced statements are taken in, and leave the blocks open that were open before. -/
theorem takeAll_of_balanced {word : List Statement} (hword : Balanced word) {b : Builder}
    (hcomments : ∀ s ∈ word, s.isComment = false) (hsupplied : b.Supplied word)
    (hname : b.openName = none) :
    ∃ c, b.takeAll word = some c ∧ c.openName = none ∧ c.scopes = b.scopes := by
  induction hword generalizing b with
  | nil => exact ⟨b, rfl, hname, rfl⟩
  | @line s rest hopens hcloses hrest ih =>
    rw [List.forall_mem_cons] at hcomments
    have hrefuses : b.refuses s = false := by simp [refuses, hcloses]
    obtain ⟨c, hc, hcname, hscopes⟩ := ih hcomments.2 (hsupplied.tail hrefuses)
      (hsupplied.openName_takeIn hcomments.1 hname)
    rw [b.scopes_takeIn hcomments.1, hname, hopens, hcloses] at hscopes
    exact ⟨c, (takeAll_cons hrefuses rest).trans hc, hcname, hscopes⟩
  | @block opener closer body rest hopens hbody hcloses hrest ihbody ihrest =>
    rw [List.forall_mem_cons, List.forall_mem_append, List.forall_mem_cons] at hcomments
    obtain ⟨hopener, hinner, hcloser, houter⟩ := hcomments
    have hrefuses : b.refuses opener = false := by simp [refuses, not_closes_of_opens hopens]
    have hsupplied₁ := hsupplied.tail hrefuses
    have hscopes₁ := b.scopes_takeIn hopener
    rw [hname, hopens] at hscopes₁
    obtain ⟨c₁, hc₁, hname₁, hkept₁⟩ := ihbody hinner hsupplied₁.left
      (hsupplied.openName_takeIn hopener hname)
    rw [hscopes₁] at hkept₁
    -- The brace closes the block of the opener, whatever stands in between.
    have hrefuses₁ : c₁.refuses closer = false := by simp [refuses, hname₁, hkept₁]
    have hsupplied₂ := hsupplied₁.right hc₁
    have hscopes₂ := c₁.scopes_takeIn hcloser
    have hopens₂ : closer.opens = false := by
      by_contra hopens₂
      rw [not_closes_of_opens (Bool.of_not_eq_false hopens₂)] at hcloses
      cases hcloses
    rw [hname₁, hopens₂, hcloses, hkept₁] at hscopes₂
    obtain ⟨c, hc, hcname, hscopes⟩ := ihrest houter (hsupplied₂.tail hrefuses₁)
      (hsupplied₂.openName_takeIn hcloser hname₁)
    refine ⟨c, ?_, hcname, hscopes.trans hscopes₂⟩
    rw [takeAll_cons hrefuses, takeAll_append, hc₁, Option.bind_some, takeAll_cons hrefuses₁, hc]

/-- The statement at which a list is refused. -/
theorem exists_refused {b : Builder} {statements : List Statement}
    (h : b.takeAll statements = none) :
    ∃ front s back c, statements = front ++ s :: back ∧ b.takeAll front = some c ∧
      c.refuses s = true := by
  induction statements generalizing b with
  | nil => cases h
  | cons s rest ih =>
    cases hs : b.refuses s with
    | true => exact ⟨[], s, rest, b, rfl, rfl, hs⟩
    | false =>
      rw [takeAll_cons hs] at h
      obtain ⟨front, t, back, c, rfl, hc, ht⟩ := ih h
      exact ⟨s :: front, t, back, c, rfl, (takeAll_cons hs front).trans hc, ht⟩

/-! ## Errors -/

section Errors

variable {settings : Settings} {base : Path} {b c : Builder} {front back : List Statement}
  {s : Statement}

theorem feed_append_of_takeAll (hordinary : ∀ s ∈ front, s.IsOrdinary)
    (hc : b.takeAll front = some c) :
    b.feed settings { base } (front ++ back) = c.feed settings { base } back := by
  induction front generalizing b with
  | nil =>
    obtain rfl := Option.some.inj hc
    rfl
  | cons s front ih =>
    rw [List.forall_mem_cons] at hordinary
    obtain ⟨hrefuses, hc⟩ := takeAll_cons_eq_some hc
    rw [List.cons_append, feed_next (step_of_not_refuses hordinary.1 hrefuses)]
    exact ih hordinary.2 hc

/-- A closing brace outside every block is refused with its own place. -/
theorem step_unbalanced (hs : s.IsOrdinary) (hcloses : s.closes = true)
    (hname : b.openName = none) (hscopes : b.scopes = []) :
    b.step settings { base } s = .error (.ofStatement .unbalancedBraces s) := by
  have hcomment : s.isComment = false := by
    cases hcomment : s.isComment with
    | false => rfl
    | true =>
      have hrefuses := refuses_eq_false_of_isComment hcomment b
      simp [refuses, hcloses, hscopes] at hrefuses
  have hopen : b.openAttribute = none := by simpa [openName] using hname
  rw [step, if_neg (by simp [hcomment]), hopen]
  simp [hs.not_import, hcloses, hscopes]

end Errors

end Builder

/-! ## Documents -/

namespace Document

open Builder

variable {settings : Settings} {base : Path} {statements : List Statement}

theorem supplied_of_classificationAt_ne (hordinary : ∀ s ∈ statements, s.IsOrdinary)
    (h : ∀ i name isEvent,
      classificationAt settings base statements i ≠ some (.attribute name [] isEvent)) :
    Builder.Supplied {} statements := by
  rintro front s back c rfl hc name isEvent hclass
  apply h front.length name isEvent
  have hfed : Builder.feed settings { base } {} front = .ok c :=
    (feed_eq_ok_iff fun t ht ↦ hordinary t (List.mem_append_left _ ht)).mpr hc
  unfold classificationAt
  simp [hfed, hclass]

/-- A statement that starts with no hyphen declares no attribute. -/
theorem classificationAt_ne_attribute (h : ∀ s ∈ statements, s.text.head? ≠ some '-') (i : Nat)
    (name value : Text) (isEvent : Bool) :
    classificationAt settings base statements i ≠ some (.attribute name value isEvent) := by
  intro hclass
  unfold classificationAt at hclass
  split at hclass
  · next s b hs _ =>
    obtain ⟨name', blanks, rest, htext, -⟩ := Classification.attribute?_eq_some
      (Scope.classify_eq_attribute (Option.some.inj hclass)).2
    exact h s (List.mem_of_getElem? hs) (by simp [htext])
  · cases hclass

section Braces

variable (hordinary : ∀ s ∈ statements, s.IsOrdinary)
include hordinary

theorem ofStatements_of_takeAll {c : Builder} (hc : ({} : Builder).takeAll statements = some c) :
    ofStatements settings base statements = c.finish := by
  have hfed : Builder.feed settings { base } {} statements = .ok c :=
    (feed_eq_ok_iff hordinary).mpr hc
  rw [ofStatements, hfed]

variable (hsupplied : Builder.Supplied {} statements)
include hsupplied

theorem ofStatements_of_unmatched {s : Statement}
    (h : Unmatched (statements.filter fun s ↦ !s.isComment) s) :
    ofStatements settings base statements = .error (.ofStatement .unbalancedBraces s) := by
  obtain ⟨front, back, hsplit, hcloses, hfront⟩ := h
  have hword := hsupplied.filter
  rw [hsplit] at hword
  have hcomments : ∀ t ∈ front, t.isComment = false := by
    intro t ht
    have hmem : t ∈ statements.filter fun s ↦ !s.isComment := by simp [hsplit, ht]
    simpa using (List.mem_filter.mp hmem).2
  obtain ⟨c, hc, hname, hscopes⟩ := takeAll_of_balanced hfront hcomments hword.left rfl
  obtain ⟨front', back', rfl, rfl⟩ := exists_split_of_filter hsplit
  rw [takeAll_filter] at hc
  rw [List.forall_mem_append, List.forall_mem_cons] at hordinary
  rw [ofStatements, feed_append_of_takeAll hordinary.1 hc, feed,
    step_unbalanced hordinary.2.1 hcloses hname hscopes]

theorem exists_ofStatements_of_balanced
    (h : Balanced (statements.filter fun s ↦ !s.isComment)) :
    ∃ doc, ofStatements settings base statements = .ok doc := by
  have hcomments : ∀ t ∈ statements.filter fun s ↦ !s.isComment, t.isComment = false :=
    fun t ht ↦ by simpa using (List.mem_filter.mp ht).2
  obtain ⟨c, hc, hname, hscopes⟩ := takeAll_of_balanced h hcomments hsupplied.filter rfl
  rw [takeAll_filter] at hc
  exact ⟨c.doc, (ofStatements_eq_ok_iff hordinary).mpr ⟨c, hc, hname, hscopes, rfl⟩⟩

omit hordinary in
/-- The statements are taken in to the end, unless a brace closes nothing. -/
theorem exists_tracks (h : ∀ s, ¬Unmatched (statements.filter fun s ↦ !s.isComment) s) :
    ∃ c, ({} : Builder).takeAll statements = some c ∧
      c.Tracks (statements.filter fun s ↦ !s.isComment) := by
  have hword := hsupplied.filter
  have hcomments : ∀ t ∈ statements.filter fun s ↦ !s.isComment, t.isComment = false :=
    fun t ht ↦ by simpa using (List.mem_filter.mp ht).2
  rw [← takeAll_filter]
  generalize statements.filter (fun s ↦ !s.isComment) = word at *
  cases hall : ({} : Builder).takeAll word with
  | some c => exact ⟨c, rfl, tracks_nil.takeAll hcomments hword hall⟩
  | none =>
    obtain ⟨front, s, back, c, rfl, hc, hrefuses⟩ := exists_refused hall
    have htracks := tracks_nil.takeAll
      (fun t ht ↦ hcomments t (List.mem_append_left _ ht)) hword.left hc
    rw [refuses, htracks.openName_eq] at hrefuses
    obtain ⟨hcloses, hscopes⟩ : s.closes = true ∧ c.scopes = [] := by simpa using hrefuses
    have hleaves := htracks.leaves
    rw [hscopes] at hleaves
    cases hleaves with
    | balanced hfront => exact absurd ⟨front, back, rfl, hcloses, hfront⟩ (h s)

theorem tracks_of_ofStatements_eq_ok {doc : Document}
    (h : ofStatements settings base statements = .ok doc) :
    ∃ c : Builder, c.doc = doc ∧ c.Tracks (statements.filter fun s ↦ !s.isComment) ∧
      Balanced (statements.filter fun s ↦ !s.isComment) := by
  have hmatched : ∀ s, ¬Unmatched (statements.filter fun s ↦ !s.isComment) s := by
    intro s hs
    rw [ofStatements_of_unmatched hordinary hsupplied hs] at h
    cases h
  obtain ⟨c, hc, htracks⟩ := exists_tracks hsupplied hmatched
  rw [ofStatements_of_takeAll hordinary hc] at h
  rcases htracks.finish_eq with ⟨hfinish, hword⟩ | ⟨s, -, hfinish⟩
  · exact ⟨c, Except.ok.inj (hfinish.symm.trans h), htracks, hword⟩
  · rw [hfinish] at h
    cases h

theorem unbalanced_of_ofStatements_eq_error {e : ParseError}
    (h : ofStatements settings base statements = .error e) :
    (∃ s, Unmatched (statements.filter fun s ↦ !s.isComment) s ∧
        e = .ofStatement .unbalancedBraces s) ∨
      (∀ s, ¬Unmatched (statements.filter fun s ↦ !s.isComment) s) ∧
        ∃ s, Unclosed (statements.filter fun s ↦ !s.isComment) s ∧
          e = .ofStatement .unbalancedBraces s := by
  by_cases hunmatched : ∃ s, Unmatched (statements.filter fun s ↦ !s.isComment) s
  · obtain ⟨s, hs⟩ := hunmatched
    rw [ofStatements_of_unmatched hordinary hsupplied hs] at h
    exact Or.inl ⟨s, hs, (Except.error.inj h).symm⟩
  · have hmatched := not_exists.mp hunmatched
    obtain ⟨c, hc, htracks⟩ := exists_tracks hsupplied hmatched
    rw [ofStatements_of_takeAll hordinary hc] at h
    rcases htracks.finish_eq with ⟨hfinish, -⟩ | ⟨s, hs, hfinish⟩
    · rw [hfinish] at h
      cases h
    · exact Or.inr ⟨hmatched, s, hs, Except.error.inj (h.symm.trans hfinish)⟩

end Braces

/-- Among statements that are neither directives nor declarations without a value, the braces alone
decide whether there is a document, how deep its nodes are, and which statement an error names: the
first brace that closes nothing, or else the innermost block that is left open. -/
theorem ofStatements_iff_balanced (hordinary : ∀ s ∈ statements, s.IsOrdinary)
    (hvalued : ∀ i name isEvent,
      classificationAt settings base statements i ≠ some (.attribute name [] isEvent)) :
    let word := statements.filter fun s ↦ !s.isComment
    ((∃ doc, ofStatements settings base statements = .ok doc) ↔ Balanced word) ∧
      (∀ doc, ofStatements settings base statements = .ok doc →
        doc.nodes.toList.map Node.statement = word ∧
        ∀ i < doc.size, doc.depth i + (word.take i).countP Statement.closes =
          (word.take i).countP Statement.opens) ∧
      ∀ e, ofStatements settings base statements = .error e →
        (∃ s, Unmatched word s ∧ e = .ofStatement .unbalancedBraces s) ∨
          (∀ s, ¬Unmatched word s) ∧
            ∃ s, Unclosed word s ∧ e = .ofStatement .unbalancedBraces s := by
  have hsupplied := supplied_of_classificationAt_ne hordinary hvalued
  refine ⟨⟨?_, exists_ofStatements_of_balanced hordinary hsupplied⟩, ?_,
    fun e ↦ unbalanced_of_ofStatements_eq_error hordinary hsupplied⟩
  · rintro ⟨doc, hdoc⟩
    obtain ⟨c, -, -, hword⟩ := tracks_of_ofStatements_eq_ok hordinary hsupplied hdoc
    exact hword
  · intro doc hdoc
    obtain ⟨c, rfl, htracks, -⟩ := tracks_of_ofStatements_eq_ok hordinary hsupplied hdoc
    refine ⟨?_, ?_⟩
    · apply List.ext_getElem?
      intro i
      rw [← htracks.nodes i, List.getElem?_map, Array.getElem?_toList]
      rfl
    · rw [htracks.size_eq]
      exact htracks.depth

theorem ofStatements_iff_balanced_nested :
    ∃ doc, ofStatements ⟨fun _ ↦ .error "", 0⟩ ⟨[]⟩
        [⟨"p \x7b".toList, 1⟩, ⟨"// \x7d".toList, 2⟩, ⟨"a \x7b".toList, 3⟩,
          ⟨"color: red;".toList, 4⟩, ⟨"\x7d".toList, 5⟩, ⟨"\x7d".toList, 6⟩] = .ok doc ∧
      doc.depth 2 = 2 := by
  obtain ⟨haccepts, hdepth, -⟩ := @ofStatements_iff_balanced ⟨fun _ ↦ .error "", 0⟩ ⟨[]⟩
    [⟨"p \x7b".toList, 1⟩, ⟨"// \x7d".toList, 2⟩, ⟨"a \x7b".toList, 3⟩,
      ⟨"color: red;".toList, 4⟩, ⟨"\x7d".toList, 5⟩, ⟨"\x7d".toList, 6⟩]
    (by decide) fun i name isEvent ↦ classificationAt_ne_attribute (by decide) i name [] isEvent
  obtain ⟨doc, hdoc⟩ := haccepts.mpr
    (.block rfl (.block rfl (.line rfl rfl .nil) rfl .nil) rfl .nil)
  obtain ⟨hnodes, hdepth⟩ := hdepth doc hdoc
  have hlength : (doc.nodes.toList.map Node.statement).length = 5 := congrArg List.length hnodes
  have hsize : doc.size = 5 := by simpa [size] using hlength
  exact ⟨doc, hdoc, hdepth 2 (by omega)⟩

end Document

end StyledMarkup
