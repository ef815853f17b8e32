import StyledMarkup.Proofs.Document.WellFormed
import StyledMarkup.Proofs.Builder.Splice
import StyledMarkup.Variable

/-!
# Statements that are no directives

Statements that are no directives are taken in one by one, with no regard to files and mixins, so a
feed of such statements is a plain fold. Each of them but a comment gives one node below the
innermost block, and the only one to be refused is a closing brace with nothing to close.
-/

namespace StyledMarkup

/-- The statement is no directive. -/
structure Statement.IsOrdinary (s : Statement) : Prop where
  not_import : Directive.isImport s.text = false
  not_mixin : Directive.isMixin s.text = false
  not_include : Directive.isInclude s.text = false

instance (s : Statement) : Decidable s.IsOrdinary :=
  decidable_of_iff (Directive.isImport s.text = false ∧ Directive.isMixin s.text = false ∧
    Directive.isInclude s.text = false) ⟨fun h ↦ ⟨h.1, h.2.1, h.2.2⟩, fun h ↦ ⟨h.1, h.2, h.3⟩⟩

theorem Statement.IsOrdinary.of_text {s s' : Statement} (h : s.IsOrdinary)
    (htext : s'.text = s.text) : s'.IsOrdinary := by
  rcases h with ⟨himport, hmixin, hinclude⟩
  rw [← htext] at himport hmixin hinclude
  exact ⟨himport, hmixin, hinclude⟩

/-! ## Declarations -/

namespace Document

/-- The variables that a document declares, in order. -/
def declarations (doc : Document) : List (Text × Text) :=
  doc.nodes.toList.filterMap Node.declaration?

theorem declarations_graft (doc : Document) {parent : Option NodeId}
    (hparent : ∀ p, parent = some p → p < doc.size) (s : Statement) (kind : NodeKind)
    (suppressed expanded : Bool) :
    (doc.graft parent s kind suppressed expanded).declarations =
      doc.declarations ++ (if kind = .generic then declaration? s.text else none).toList := by
  have hmap : (doc.graft parent s kind suppressed expanded).nodes.toList.map Node.declaration? =
      doc.nodes.toList.map Node.declaration? ++
        [if kind = .generic then declaration? s.text else none] := by
    apply List.ext_getElem?
    intro j
    have hget := map_get?_graft doc s kind suppressed expanded (f := Node.declaration?)
      (by intro n id asAttribute; cases asAttribute <;> rfl) hparent j
    have hlength : (doc.nodes.toList.map Node.declaration?).length = doc.size := by simp [size]
    simp only [get?, ← Array.getElem?_toList, ← List.getElem?_map] at hget
    rw [hget, List.getElem?_append, hlength]
    rcases Nat.lt_trichotomy j doc.size with hlt | heq | hgt
    · rw [if_neg (Nat.ne_of_lt hlt), if_pos hlt]
    · rw [if_pos heq, if_neg (by rw [heq]; exact Nat.lt_irrefl _), heq, Nat.sub_self]
      rfl
    · rw [if_neg (Nat.ne_of_gt hgt), if_neg (Nat.lt_asymm hgt),
        List.getElem?_eq_none (by rw [hlength]; exact Nat.le_of_lt hgt),
        List.getElem?_eq_none (Nat.sub_pos_of_lt hgt)]
  have hfilter : ∀ l : List Node, l.filterMap Node.declaration? =
      (l.map Node.declaration?).filterMap id := by
    intro l
    rw [List.filterMap_map]
    rfl
  rw [declarations, hfilter, hmap, List.filterMap_append, ← hfilter, declarations]
  cases (if kind = .generic then declaration? s.text else none) <;> rfl

end Document

namespace Builder

/-! ## Taking in what is no directive -/

/-- The name of the open attribute. -/
def openName (b : Builder) : Option Text :=
  b.openAttribute.map OpenAttribute.name

/-- What a statement that is no directive is taken for. -/
def kindOf (b : Builder) (s : Statement) : NodeKind :=
  match b.openName with
  | some name => (b.scope.classify ("--".toList ++ name ++ ": ".toList ++ s.text)).toKind
  | none => (b.scope.classify s.text).toKind.awaitValue

/-- The statement is a closing brace that stands inside a value or outside every block. -/
def refuses (b : Builder) (s : Statement) : Bool :=
  s.closes && (b.openName.isSome || b.scopes.isEmpty)

/-- The builder after a statement that is no directive. -/
def takeIn (b : Builder) (s : Statement) : Builder :=
  if s.isComment then b
  else
    match b.openAttribute with
    | some a => b.continueValue a s false
    | none => b.plain s false

/-- The builder after statements that are no directives, unless one of them is refused. -/
def takeAll : Builder → List Statement → Option Builder
  | b, [] => some b
  | b, s :: rest => if b.refuses s then none else (b.takeIn s).takeAll rest

/-- The variable that a statement declares. -/
def declared (b : Builder) (s : Statement) : List (Text × Text) :=
  if s.isComment then []
  else (if b.kindOf s = .generic then declaration? s.text else none).toList

section Step

variable {settings : Settings} {base : Path} {b : Builder} {s : Statement} (hs : s.IsOrdinary)
include hs

theorem step_of_not_refuses (h : b.refuses s = false) :
    b.step settings { base } s = .ok (.next (b.takeIn s)) := by
  unfold step takeIn
  split
  · rfl
  · cases hopen : b.openAttribute with
    | some a =>
      have hcloses : s.closes = false := by simpa [refuses, openName, hopen] using h
      simp [hcloses, Context.isExpanding]
    | none =>
      have hfloor : s.closes = true → b.scopes ≠ [] := by
        simpa [refuses, openName, hopen] using h
      simpa [hs.not_import, hs.not_mixin, hs.not_include, Context.isExpanding] using hfloor

theorem step_of_refuses (h : b.refuses s = true) : ∃ e, b.step settings { base } s = .error e := by
  rw [refuses, Bool.and_eq_true] at h
  have htext : s.text = ['}'] := by simpa [Statement.closes] using h.1
  have hcomment : s.isComment = false := by
    rw [Statement.isComment, htext]
    rfl
  unfold step
  rw [if_neg (by simp [hcomment])]
  cases hopen : b.openAttribute with
  | some a => exact ⟨_, if_pos h.1⟩
  | none =>
    have hscopes : b.scopes = [] := by simpa [openName, hopen] using h.2
    simp [hs.not_import, h.1, hscopes]

end Step

theorem toOption_feed {settings : Settings} {base : Path} {b : Builder}
    {statements : List Statement} (h : ∀ s ∈ statements, s.IsOrdinary) :
    (b.feed settings { base } statements).toOption = b.takeAll statements := by
  induction statements generalizing b with
  | nil =>
    rw [feed_nil]
    rfl
  | cons s rest ih =>
    have hs := h s List.mem_cons_self
    rw [takeAll]
    cases hrefuses : b.refuses s with
    | true =>
      obtain ⟨e, hstep⟩ : ∃ e, b.step settings { base } s = .error e := step_of_refuses hs hrefuses
      rw [feed, hstep]
      rfl
    | false =>
      rw [feed_next (step_of_not_refuses hs hrefuses),
        ih fun t ht ↦ h t (List.mem_cons_of_mem s ht)]
      rfl

theorem feed_eq_ok_iff {settings : Settings} {base : Path} {b c : Builder}
    {statements : List Statement} (h : ∀ s ∈ statements, s.IsOrdinary) :
    b.feed settings { base } statements = .ok c ↔ b.takeAll statements = some c := by
  have hfeed : (b.feed settings { base } statements).toOption = b.takeAll statements :=
    toOption_feed h
  rw [← hfeed]
  cases b.feed settings { base } statements <;> simp [Except.toOption]

theorem takeAll_cons {b : Builder} {s : Statement} (h : b.refuses s = false)
    (rest : List Statement) : b.takeAll (s :: rest) = (b.takeIn s).takeAll rest := by
  rw [takeAll, h, if_neg Bool.false_ne_true]

theorem takeAll_cons_eq_some {b c : Builder} {s : Statement} {rest : List Statement}
    (h : b.takeAll (s :: rest) = some c) :
    b.refuses s = false ∧ (b.takeIn s).takeAll rest = some c := by
  rw [takeAll] at h
  split at h
  · cases h
  · next hrefuses => exact ⟨Bool.of_not_eq_true hrefuses, h⟩

theorem takeAll_append (b : Builder) (front back : List Statement) :
    b.takeAll (front ++ back) = (b.takeAll front).bind fun b' ↦ b'.takeAll back := by
  induction front generalizing b with
  | nil => rfl
  | cons s rest ih =>
    rw [List.cons_append, takeAll, takeAll]
    split
    · rfl
    · exact ih _

/-! ## The parts of the builder -/

/-- The name of the open attribute after a statement of this kind. -/
def nextName (name : Option Text) (kind : NodeKind) (s : Statement) : Option Text :=
  match name with
  | some name => if endsValue s then none else some name
  | none =>
    match kind with
    | .attribute name _ _ true => some name
    | _ => none

section Parts

variable (b : Builder) {s : Statement} (hs : s.isComment = false)
include hs

theorem doc_takeIn :
    (b.takeIn s).doc = b.doc.graft b.scopes.head? s (b.kindOf s) false false := by
  rw [takeIn, if_neg (by simp [hs]), kindOf, openName]
  cases b.openAttribute with
  | some a => exact doc_continueValue b a s false
  | none => exact doc_plain b s false

theorem scopes_takeIn :
    (b.takeIn s).scopes =
      if b.openName.isSome then b.scopes
      else if s.opens then b.doc.size :: b.scopes
      else if s.closes then b.scopes.tail else b.scopes := by
  rw [takeIn, if_neg (by simp [hs]), openName]
  cases b.openAttribute with
  | some a =>
    simp only [continueValue, Option.map_some, Option.isSome_some, if_true]
    split <;> rfl
  | none =>
    simp only [plain, Option.map_none, Option.isSome_none, Bool.false_eq_true, if_false]
    split
    · rfl
    · split
      · rw [closeBlock_scopes]
        rfl
      · rfl

theorem openName_takeIn :
    (b.takeIn s).openName = nextName b.openName (b.kindOf s) s := by
  unfold takeIn kindOf
  rw [if_neg (by simp [hs]), openName, openName]
  cases hopen : b.openAttribute with
  | some a =>
    simp only [continueValue, Option.map_some, nextName]
    split
    · rfl
    · simp [add, hopen]
  | none =>
    have hopened : ∀ kind, (opened? kind s).map OpenAttribute.name = nextName none kind s := by
      intro kind
      unfold opened? nextName
      split <;> simp_all
    simp only [plain, Option.map_none]
    split
    · exact hopened _
    · split
      · rw [closeBlock_openAttribute]
        exact hopened _
      · exact hopened _

end Parts

/-! ## Blocks -/

/-- Only statements that open a block have anything below them. -/
structure Housed (b : Builder) : Prop where
  linked : b.doc.Linked
  scope_opens : ∀ i ∈ b.scopes, b.doc.has Node.isBlockOpen i = true
  parent_opens : ∀ {j i}, b.doc.parent? j = some i → b.doc.has Node.isBlockOpen i = true

theorem housed_empty : ({} : Builder).Housed where
  linked := Document.linked_empty
  scope_opens := by simp
  parent_opens := by simp [Document.parent?, Document.get?]

namespace Housed

variable {b : Builder} (h : b.Housed)
include h

theorem lt_size {i : NodeId} (hi : i ∈ b.scopes) : i < b.doc.size := by
  obtain ⟨n, hn, -⟩ := Document.has_eq_true_iff.mp (h.scope_opens i hi)
  exact Document.lt_size_of_get? hn

theorem head?_lt : ∀ p, b.scopes.head? = some p → p < b.doc.size :=
  fun _ hp ↦ h.lt_size (List.mem_of_head? hp)

theorem takeIn (s : Statement) : (b.takeIn s).Housed := by
  by_cases hs : s.isComment = true
  · rw [Builder.takeIn, if_pos hs]
    exact h
  · have hs := Bool.of_not_eq_true hs
    have hlt := h.head?_lt
    have hold : ∀ {i}, b.doc.has Node.isBlockOpen i = true →
        (b.takeIn s).doc.has Node.isBlockOpen i = true := by
      intro i hi
      obtain ⟨n, hn, -⟩ := Document.has_eq_true_iff.mp hi
      rw [b.doc_takeIn hs, Document.has_graft b.doc s _ false false Document.isBlockOpen_adopt hlt,
        if_neg (Nat.ne_of_lt (Document.lt_size_of_get? hn))]
      exact hi
    refine ⟨?_, ?_, ?_⟩
    · rw [b.doc_takeIn hs]
      exact h.linked.graft hlt s _ false false
    · intro i hi
      rw [b.scopes_takeIn hs] at hi
      split at hi
      · exact hold (h.scope_opens i hi)
      · split at hi
        · next hopens =>
          rcases List.mem_cons.mp hi with rfl | hi
          · rw [b.doc_takeIn hs,
              Document.has_graft b.doc s _ false false Document.isBlockOpen_adopt hlt, if_pos rfl]
            exact hopens
          · exact hold (h.scope_opens i hi)
        · split at hi
          · exact hold (h.scope_opens i (List.mem_of_mem_tail hi))
          · exact hold (h.scope_opens i hi)
    · intro j i hj
      rw [b.doc_takeIn hs, Document.parent?_graft b.doc s _ false false hlt] at hj
      split at hj
      · exact hold (h.scope_opens i (List.mem_of_head? hj))
      · exact hold (h.parent_opens hj)

theorem declarations_takeIn (s : Statement) :
    (b.takeIn s).doc.declarations = b.doc.declarations ++ b.declared s := by
  unfold declared
  split
  · next hs => rw [Builder.takeIn, if_pos hs, List.append_nil]
  · next hs =>
    rw [b.doc_takeIn (Bool.of_not_eq_true hs), Document.declarations_graft b.doc h.head?_lt]

theorem takeAll {b' : Builder} {statements : List Statement}
    (hb' : b.takeAll statements = some b') : b'.Housed := by
  induction statements generalizing b with
  | nil => exact Option.some.inj hb' ▸ h
  | cons s rest ih => exact ih (h.takeIn s) (takeAll_cons_eq_some hb').2

theorem finish_eq_ok_iff {doc : Document} :
    b.finish = .ok doc ↔ b.openName = none ∧ b.scopes = [] ∧ b.doc = doc := by
  unfold finish openName
  cases hopen : b.openAttribute with
  | some a => simp
  | none =>
    cases hscopes : b.scopes with
    | nil => simp
    | cons i outer =>
      obtain ⟨n, hn⟩ := Document.exists_get? (h.lt_size (by rw [hscopes]; exact List.mem_cons_self))
      simp [hn]

end Housed

end Builder

/-- A document of statements that are no directives. -/
theorem Document.ofStatements_eq_ok_iff {settings : Settings} {base : Path}
    {statements : List Statement} (h : ∀ s ∈ statements, s.IsOrdinary) {doc : Document} :
    Document.ofStatements settings base statements = .ok doc ↔
      ∃ b, ({} : Builder).takeAll statements = some b ∧ b.openName = none ∧ b.scopes = [] ∧
        b.doc = doc := by
  unfold Document.ofStatements
  cases hrun : Builder.feed settings { base } {} statements with
  | error e =>
    have hnone : ∀ b, ({} : Builder).takeAll statements ≠ some b := by
      intro b hb
      rw [← Builder.feed_eq_ok_iff h, hrun] at hb
      cases hb
    simp [hnone]
  | ok b =>
    have hb : ({} : Builder).takeAll statements = some b := (Builder.feed_eq_ok_iff h).mp hrun
    simp [hb, (Builder.housed_empty.takeAll hb).finish_eq_ok_iff]

end StyledMarkup
