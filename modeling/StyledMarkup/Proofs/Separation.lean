import StyledMarkup.Proofs.Builder.Twins
import StyledMarkup.Proofs.Markup.Structure

/-!
# Markup and stylesheet are separate

Attributes and literal text reach the markup only, and the other statements that end in a semicolon
reach the stylesheet only. So lists of statements that differ in nothing but attributes and literal
text have the same stylesheet, and lists that differ in nothing but such other statements have the
same markup. Two builders that are fed such lists differ in what is left out and in nothing else.
-/

namespace StyledMarkup

open Classification

/-! ## Global attributes -/

/-- The statement declares an attribute that all elements have. In a block that belongs to no
element these are the only ones. -/
def Statement.declaresGlobal (s : Statement) : Bool :=
  match Scope.block.classify s.text with
  | .attribute name _ _ => Vocabulary.isGlobal name
  | _ => false

theorem Classification.allowed_of_block {name : Text} (h : allowed name .block = true)
    (scope : Scope) : allowed name scope = true := by
  have hglobal : Vocabulary.isGlobal name = true := by simpa [allowed] using h
  simp [allowed, hglobal]

theorem Classification.attribute?_of_block {t : Text} {c : Classification}
    (h : attribute? t .block = some c) (scope : Scope) : attribute? t scope = some c := by
  unfold attribute? at h ⊢
  split at h
  · cases h
  · dsimp only at h ⊢
    split at h
    · split at h
      · next hallowed =>
        rw [← h]
        exact if_pos (allowed_of_block hallowed scope)
      · cases h
    · cases h

/-- A global attribute is one in every scope. -/
theorem Statement.exists_classify_of_declaresGlobal {s : Statement}
    (h : s.declaresGlobal = true) (scope : Scope) :
    ∃ name value isEvent, scope.classify s.text = .attribute name value isEvent := by
  unfold declaresGlobal at h
  split at h
  · next name value isEvent hclass =>
    obtain ⟨hmarker, hattr⟩ := Scope.classify_eq_attribute hclass
    obtain ⟨name', blanks, rest, htext, -⟩ := attribute?_eq_some hattr
    have helement : element? s.text = none := by
      rw [htext]
      exact element?_cons (by decide) _
    refine ⟨name, value, isEvent, ?_⟩
    rw [Scope.classify, helement, hmarker, attribute?_of_block hattr scope]
    rfl
  · cases h

/-! ## What each rendering leaves out -/

/-- Leaves out attributes and literal text. -/
def Omission.markup : Omission where
  omits t kind := (kind.isAttribute || isTextMarker t) && !Text.endsWith t '{' && t != ['}']
  not_opens := by
    intro t kind h
    simp only [Bool.and_eq_true, Bool.not_eq_true'] at h
    exact h.1.2
  not_closes := by
    intro t kind h
    exact bne_iff_ne.mp (Bool.and_eq_true_iff.mp h).2

theorem Omission.isHidden_of_markup (n : Node) (h : Omission.markup.drops n = true) :
    Stylesheet.isHidden n = true := by
  have hkind : n.kind.isAttribute = n.isAttribute := rfl
  simp only [drops, markup, Bool.and_eq_true, hkind] at h
  rw [Stylesheet.isHidden, Bool.or_assoc, h.1.1, Bool.or_true]

/-- Leaves out the lines of the stylesheet that end in a semicolon. -/
def Omission.stylesheet : Omission where
  omits t kind :=
    kind = .generic && Text.endsWith t ';' && !isTextMarker t && (declaration? t).isNone
  not_opens := by
    intro t kind h
    simp only [Bool.and_eq_true] at h
    obtain ⟨start, rfl⟩ := Text.endsWith_iff.mp h.1.1.2
    simp [Text.endsWith]
  not_closes := by
    rintro t kind h rfl
    simp only [Bool.and_eq_true] at h
    exact absurd h.1.1.2 (by decide)

theorem Omission.silent_stylesheet : Omission.stylesheet.Silent := by
  intro n h
  simp only [drops, stylesheet, Bool.and_eq_true, Bool.not_eq_true', decide_eq_true_eq] at h
  obtain ⟨⟨⟨hkind, hends⟩, hmarker⟩, -⟩ := h
  refine ⟨hkind, ?_, hmarker⟩
  obtain ⟨start, hstart⟩ := Text.endsWith_iff.mp hends
  rw [Node.isBlockClose, hstart, Text.trim_append_singleton _ (by decide), beq_eq_false_iff_ne]
  intro hclose
  have hlast := congrArg List.getLast? hclose
  simp at hlast

/-! ## Feeding two lists -/

/-- The statement declares an attribute without a value. -/
def Classification.isValueless : Classification → Bool
  | .attribute _ [] _ => true
  | _ => false

namespace Builder

/-- How statements are classified, each in the block that is open where it stands. -/
def classifications : Builder → List Statement → List Classification
  | _, [] => []
  | b, s :: rest => b.scope.classify s.text :: (b.takeIn s).classifications rest

theorem length_classifications (b : Builder) (statements : List Statement) :
    (b.classifications statements).length = statements.length := by
  induction statements generalizing b with
  | nil => rfl
  | cons s rest ih => rw [classifications, List.length_cons, ih, List.length_cons]

theorem getElem?_classifications {b a : Builder} {statements : List Statement} {i : Nat}
    {s : Statement} (hs : statements[i]? = some s)
    (ha : b.takeAll (statements.take i) = some a) :
    (b.classifications statements)[i]? = some (a.scope.classify s.text) := by
  induction statements generalizing b i with
  | nil => cases hs
  | cons t rest ih =>
    cases i with
    | zero =>
      obtain rfl := Option.some.inj hs
      obtain rfl := Option.some.inj ha
      rfl
    | succ i => exact ih hs (takeAll_cons_eq_some ha).2

/-- No statement of the list declares an attribute without a value. -/
def Valued (b : Builder) (statements : List Statement) : Prop :=
  ∀ name isEvent, .attribute name [] isEvent ∉ b.classifications statements

theorem Valued.tail {b : Builder} {s : Statement} {rest : List Statement}
    (h : b.Valued (s :: rest)) : (b.takeIn s).Valued rest :=
  fun name isEvent hmem ↦ h name isEvent (List.mem_cons_of_mem _ hmem)

theorem openName_takeIn_of_classify {b : Builder} {s : Statement} (hs : s.isComment = false)
    (hname : b.openName = none)
    (h : ∀ name isEvent, b.scope.classify s.text ≠ .attribute name [] isEvent) :
    (b.takeIn s).openName = none := by
  rw [b.openName_takeIn hs, hname, kindOf, hname]
  rcases hclass : b.scope.classify s.text with _ | ⟨name, value, isEvent⟩ | _
  · rfl
  · cases value with
    | nil => exact absurd hclass (h name isEvent)
    | cons => rfl
  · rfl

theorem Valued.openName_takeIn {b : Builder} {s : Statement} {rest : List Statement}
    (h : b.Valued (s :: rest)) (hname : b.openName = none) : (b.takeIn s).openName = none := by
  by_cases hs : s.isComment = true
  · rw [takeIn, if_pos hs, hname]
  · refine openName_takeIn_of_classify (Bool.of_not_eq_true hs) hname fun name isEvent hclass ↦ ?_
    apply h name isEvent
    rw [classifications, hclass]
    exact List.mem_cons_self

/-- The statement is left out and declares no variable. -/
def Omits (o : Omission) (b : Builder) (s : Statement) : Prop :=
  o.omits s.text (b.kindOf s) = true ∧ b.declared s = []

theorem omits_of_declaresGlobal {b : Builder} {s : Statement} (hname : b.openName = none)
    (hopens : s.opens = false) (h : s.declaresGlobal = true) : b.Omits .markup s := by
  obtain ⟨name, value, isEvent, hclass⟩ := s.exists_classify_of_declaresGlobal h b.scope
  have hkind : b.kindOf s = .attribute name value isEvent value.isEmpty := by
    rw [kindOf, hname]
    simp only [hclass]
    rfl
  have hcloses : s.text ≠ ['}'] := by
    intro htext
    rw [htext, Scope.classify_closing] at hclass
    cases hclass
  have hends : Text.endsWith s.text '{' = false := hopens
  constructor
  · simp [Omission.markup, hkind, NodeKind.isAttribute, hends, hcloses]
  · simp [declared, hkind]

theorem omits_of_isTextMarker {b : Builder} {s : Statement} (hopens : s.opens = false)
    (h : isTextMarker s.text = true) : b.Omits .markup s := by
  obtain ⟨blanks, rest, htext, -⟩ := isTextMarker_iff.mp h
  have hcloses : s.text ≠ ['}'] := by
    intro hclose
    rw [hclose] at h
    exact absurd h (by decide)
  have hends : Text.endsWith s.text '{' = false := hopens
  have hdeclares : declaration? s.text = none := by
    have hhead : s.text.head? ≠ some '$' := by
      rw [htext]
      exact fun hhead ↦ absurd (Option.some.inj hhead) (by decide)
    exact if_neg hhead
  constructor
  · simp [Omission.markup, h, hends, hcloses]
  · simp [declared, hdeclares]

/-- Position by position, the statements of two lists have the same text, or both are left out. -/
def Agree (o : Omission) (b b' : Builder) (statements statements' : List Statement) : Prop :=
  ∀ i s s' a a', statements[i]? = some s → statements'[i]? = some s' →
    b.takeAll (statements.take i) = some a → b'.takeAll (statements'.take i) = some a' →
    a.openName = none → a'.openName = none → s'.text = s.text ∨ a.Omits o s ∧ a'.Omits o s'

theorem Agree.tail {o : Omission} {b b' : Builder} {s s' : Statement}
    {rest rest' : List Statement} (h : Agree o b b' (s :: rest) (s' :: rest'))
    (hs : b.refuses s = false) (hs' : b'.refuses s' = false) :
    Agree o (b.takeIn s) (b'.takeIn s') rest rest' := by
  intro i t t' a a' ht ht' ha ha'
  refine h (i + 1) t t' a a' ht ht' ?_ ?_
  · rw [List.take_succ_cons, takeAll_cons hs, ha]
  · rw [List.take_succ_cons, takeAll_cons hs', ha']

/-- Lists that agree lead twins to twins. -/
theorem Twins.of_agree {o : Omission} {b b' c c' : Builder}
    {statements statements' : List Statement} (h : Twins o b b') (hname : b.openName = none)
    (hdeclared : b.doc.declarations = b'.doc.declarations)
    (hlength : statements.length = statements'.length)
    (hvalued : b.Valued statements) (hvalued' : b'.Valued statements')
    (hagree : Agree o b b' statements statements') (hc : b.takeAll statements = some c)
    (hc' : b'.takeAll statements' = some c') :
    Twins o c c' ∧ c.doc.declarations = c'.doc.declarations := by
  induction statements generalizing b b' statements' with
  | nil =>
    obtain rfl := List.length_eq_zero_iff.mp hlength.symm
    obtain rfl := Option.some.inj hc
    obtain rfl := Option.some.inj hc'
    exact ⟨h, hdeclared⟩
  | cons s rest ih =>
    cases statements' with
    | nil => cases hlength
    | cons s' rest' =>
      obtain ⟨hs, hc⟩ := takeAll_cons_eq_some hc
      obtain ⟨hs', hc'⟩ := takeAll_cons_eq_some hc'
      have hname' : b'.openName = none := h.openName_eq.trans hname
      have hnext := hvalued.openName_takeIn hname
      have hnext' := hvalued'.openName_takeIn hname'
      have hdeclares := h.left.declarations_takeIn s
      have hdeclares' := h.right.declarations_takeIn s'
      suffices hstep : Twins o (b.takeIn s) (b'.takeIn s') ∧ b.declared s = b'.declared s' by
        refine ih hstep.1 hnext ?_ (Nat.succ.inj hlength) hvalued.tail hvalued'.tail
          (hagree.tail hs hs') hc hc'
        rw [hdeclares, hdeclares', hdeclared, hstep.2]
      rcases hagree 0 s s' b b' rfl rfl rfl rfl hname hname' with htext | ⟨homits, homits'⟩
      · exact ⟨h.takeIn htext, (h.declared_eq htext).symm⟩
      -- Neither statement is seen, so the builders take them in one after the other.
      · have hleft : Twins o (b.takeIn s) b' :=
          h.takeIn_left homits.1 (hnext.trans hname.symm)
        have hboth : Twins o (b'.takeIn s') (b.takeIn s) :=
          hleft.symm.takeIn_left homits'.1 (hnext'.trans hname'.symm)
        exact ⟨hboth.symm, homits.2.trans homits'.2.symm⟩

end Builder

/-! ## Two lists of statements -/

namespace Document

/-- How the statement at a position is classified in the block that is open there. -/
def classificationAt (settings : Settings) (base : Path) (statements : List Statement) (i : Nat) :
    Option Classification :=
  match statements[i]?, Builder.feed settings { base } {} (statements.take i) with
  | some s, .ok b => some (b.scope.classify s.text)
  | _, _ => none

/-- The statement at a position ends in a semicolon and is generic where it stands, and it is
neither literal text nor the declaration of a variable. -/
structure RuleAt (settings : Settings) (base : Path) (statements : List Statement) (i : Nat)
    (s : Statement) : Prop where
  ends : Text.endsWith s.text ';' = true
  generic : classificationAt settings base statements i = some .generic
  not_marker : isTextMarker s.text = false
  not_declaration : declaration? s.text = none

variable {settings : Settings} {base : Path} {statements statements' : List Statement}
  {doc doc' : Document}

theorem classificationAt_eq_getElem? (hordinary : ∀ s ∈ statements, s.IsOrdinary)
    (hdoc : ofStatements settings base statements = .ok doc) (i : Nat) :
    classificationAt settings base statements i =
      (({} : Builder).classifications statements)[i]? := by
  unfold classificationAt
  cases hs : statements[i]? with
  | none =>
    rw [List.getElem?_eq_none_iff, ← ({} : Builder).length_classifications statements,
      ← List.getElem?_eq_none_iff] at hs
    rw [hs]
  | some s =>
    obtain ⟨c, hc, -⟩ := (ofStatements_eq_ok_iff hordinary).mp hdoc
    rw [← List.take_append_drop i statements, Builder.takeAll_append] at hc
    obtain ⟨a, ha, -⟩ := Option.bind_eq_some_iff.mp hc
    have hrun : Builder.feed settings { base } {} (statements.take i) = .ok a :=
      (Builder.feed_eq_ok_iff fun t ht ↦ hordinary t (List.mem_of_mem_take ht)).mpr ha
    rw [hrun, Builder.getElem?_classifications hs ha]

theorem valued_of_classificationAt_ne (hordinary : ∀ s ∈ statements, s.IsOrdinary)
    (hdoc : ofStatements settings base statements = .ok doc)
    (h : ∀ i name isEvent,
      classificationAt settings base statements i ≠ some (.attribute name [] isEvent)) :
    Builder.Valued {} statements := by
  intro name isEvent hmem
  obtain ⟨i, hi⟩ := List.mem_iff_getElem?.mp hmem
  apply h i name isEvent
  rw [classificationAt_eq_getElem? hordinary hdoc, hi]

theorem classificationAt_ne_of_forall (hordinary : ∀ s ∈ statements, s.IsOrdinary)
    (hdoc : ofStatements settings base statements = .ok doc)
    (h : ∀ c ∈ ({} : Builder).classifications statements, c.isValueless = false) :
    ∀ i name isEvent,
      classificationAt settings base statements i ≠ some (.attribute name [] isEvent) := by
  intro i name isEvent hclass
  rw [classificationAt_eq_getElem? hordinary hdoc] at hclass
  have hvalue := h _ (List.mem_of_getElem? hclass)
  cases hvalue

theorem RuleAt.omits (hordinary : ∀ s ∈ statements, s.IsOrdinary)
    (hdoc : ofStatements settings base statements = .ok doc) {i : Nat} {s : Statement}
    {a : Builder} (h : RuleAt settings base statements i s) (hname : a.openName = none)
    (hs : statements[i]? = some s) (ha : ({} : Builder).takeAll (statements.take i) = some a) :
    a.Omits .stylesheet s := by
  have hclass : a.scope.classify s.text = .generic := by
    have hgeneric := h.generic
    rw [classificationAt_eq_getElem? hordinary hdoc,
      Builder.getElem?_classifications hs ha] at hgeneric
    exact Option.some.inj hgeneric
  have hkind : a.kindOf s = .generic := by
    rw [Builder.kindOf, hname]
    simp only [hclass]
    rfl
  constructor
  · simp [Omission.stylesheet, hkind, h.ends, h.not_marker, h.not_declaration]
  · simp [Builder.declared, hkind, h.not_declaration]

section Pair

variable (hlength : statements.length = statements'.length)
  (hordinary : ∀ s ∈ statements, s.IsOrdinary) (hordinary' : ∀ s ∈ statements', s.IsOrdinary)
  (hvalued : ∀ i name isEvent,
    classificationAt settings base statements i ≠ some (.attribute name [] isEvent))
  (hvalued' : ∀ i name isEvent,
    classificationAt settings base statements' i ≠ some (.attribute name [] isEvent))
  (hdoc : ofStatements settings base statements = .ok doc)
  (hdoc' : ofStatements settings base statements' = .ok doc')
include hlength hordinary hordinary' hvalued hvalued' hdoc hdoc'

/-- Lists that agree have documents with the same variables and the same outline. -/
theorem outline_of_agree {o : Omission} (hagree : Builder.Agree o {} {} statements statements') :
    doc.bindings = doc'.bindings ∧
      Tree.outlineAll o doc.suppressDeclarations.forest =
        Tree.outlineAll o doc'.suppressDeclarations.forest := by
  have hvalued := valued_of_classificationAt_ne hordinary hdoc hvalued
  have hvalued' := valued_of_classificationAt_ne hordinary' hdoc' hvalued'
  obtain ⟨c, hc, -, -, rfl⟩ := (ofStatements_eq_ok_iff hordinary).mp hdoc
  obtain ⟨c', hc', -, -, rfl⟩ := (ofStatements_eq_ok_iff hordinary').mp hdoc'
  obtain ⟨htwins, hdeclared⟩ := (Builder.twins_empty o).of_agree rfl rfl hlength
    hvalued hvalued' hagree hc hc'
  refine ⟨?_, htwins.outlineAll_forest⟩
  exact congrArg Bindings.builtin.insertAll hdeclared

/-- The stylesheet does not depend on global attributes and literal text, and the markup does not
depend on what is a line of the stylesheet and nothing else. -/
theorem targets_separate (overrides : Bindings) :
    ((∀ (i : Nat) (s s' : Statement), statements[i]? = some s → statements'[i]? = some s' →
        s'.text = s.text ∨ s.opens = false ∧ s'.opens = false ∧
          (s.declaresGlobal = true ∧ s'.declaresGlobal = true ∨
            isTextMarker s.text = true ∧ isTextMarker s'.text = true)) →
      ∀ css, Stylesheet.render ⟨overrides, doc.bindings⟩ doc.suppressDeclarations = .ok css ↔
        Stylesheet.render ⟨overrides, doc'.bindings⟩ doc'.suppressDeclarations = .ok css) ∧
    ((∀ (i : Nat) (s s' : Statement), statements[i]? = some s → statements'[i]? = some s' →
        s'.text = s.text ∨ RuleAt settings base statements i s ∧
          RuleAt settings base statements' i s') →
      ∀ html, Markup.render ⟨overrides, doc.bindings⟩ doc.suppressDeclarations = .ok html ↔
        Markup.render ⟨overrides, doc'.bindings⟩ doc'.suppressDeclarations = .ok html) := by
  constructor
  · intro hpositions
    obtain ⟨hbindings, houtline⟩ : doc.bindings = doc'.bindings ∧ _ :=
      outline_of_agree hlength hordinary hordinary' hvalued hvalued' hdoc hdoc'
        (o := .markup) (by
          intro i s s' a a' hs hs' ha ha' hname hname'
          refine (hpositions i s s' hs hs').imp_right ?_
          rintro ⟨hopens, hopens', ⟨hglobal, hglobal'⟩ | ⟨hmarker, hmarker'⟩⟩
          · exact ⟨Builder.omits_of_declaresGlobal hname hopens hglobal,
              Builder.omits_of_declaresGlobal hname' hopens' hglobal'⟩
          · exact ⟨Builder.omits_of_isTextMarker hopens hmarker,
              Builder.omits_of_isTextMarker hopens' hmarker'⟩)
    apply Except.eq_ok_iff_of_toOption
    rw [hbindings]
    exact Stylesheet.toOption_render_eq (fun _ ↦ rfl) (fun _ n _ ↦ Omission.isHidden_of_markup n)
      (fun _ n _ ↦ Omission.isHidden_of_markup n) houtline
  · intro hpositions
    obtain ⟨hbindings, houtline⟩ : doc.bindings = doc'.bindings ∧ _ :=
      outline_of_agree hlength hordinary hordinary' hvalued hvalued' hdoc hdoc'
        (o := .stylesheet) (by
          intro i s s' a a' hs hs' ha ha' hname hname'
          refine (hpositions i s s' hs hs').imp_right ?_
          rintro ⟨hrule, hrule'⟩
          exact ⟨hrule.omits hordinary hdoc hname hs ha,
            hrule'.omits hordinary' hdoc' hname' hs' ha'⟩)
    apply Except.eq_ok_iff_of_toOption
    rw [hbindings]
    exact Markup.toOption_render_eq (fun _ ↦ rfl) Omission.silent_stylesheet houtline

end Pair

theorem targets_separate_block :
    ∃ doc doc₁ doc₂,
      ofStatements ⟨(Library.ofList []).load, 32⟩ ⟨[]⟩
        [⟨"div \x7b".toList, 1⟩, ⟨"--id: \"a\";".toList, 2⟩, ⟨"--text: \"x\";".toList, 3⟩,
          ⟨"width: 1px;".toList, 4⟩, ⟨"\x7d".toList, 5⟩] = .ok doc ∧
      ofStatements ⟨(Library.ofList []).load, 32⟩ ⟨[]⟩
        [⟨"div \x7b".toList, 1⟩, ⟨"--title: \"b\";".toList, 2⟩, ⟨"--text: \"y z\";".toList, 3⟩,
          ⟨"width: 1px;".toList, 4⟩, ⟨"\x7d".toList, 5⟩] = .ok doc₁ ∧
      ofStatements ⟨(Library.ofList []).load, 32⟩ ⟨[]⟩
        [⟨"div \x7b".toList, 1⟩, ⟨"--id: \"a\";".toList, 2⟩, ⟨"--text: \"x\";".toList, 3⟩,
          ⟨"color: red;".toList, 4⟩, ⟨"\x7d".toList, 5⟩] = .ok doc₂ ∧
      Stylesheet.render ⟨{}, doc₁.bindings⟩ doc₁.suppressDeclarations =
        .ok (joinLines ["div \x7b".toList, "    width: 1px;".toList, "\x7d".toList]) ∧
      Markup.render ⟨{}, doc₂.bindings⟩ doc₂.suppressDeclarations =
        .ok (joinLines ["<div id=\"a\">".toList, "    x".toList, "</div>".toList]) := by
  obtain ⟨doc, doc₁, doc₂, hdoc, hdoc₁, hdoc₂, hcss, hhtml⟩ : ∃ doc doc₁ doc₂,
      ofStatements ⟨(Library.ofList []).load, 32⟩ ⟨[]⟩
        [⟨"div \x7b".toList, 1⟩, ⟨"--id: \"a\";".toList, 2⟩, ⟨"--text: \"x\";".toList, 3⟩,
          ⟨"width: 1px;".toList, 4⟩, ⟨"\x7d".toList, 5⟩] = .ok doc ∧
      ofStatements ⟨(Library.ofList []).load, 32⟩ ⟨[]⟩
        [⟨"div \x7b".toList, 1⟩, ⟨"--title: \"b\";".toList, 2⟩, ⟨"--text: \"y z\";".toList, 3⟩,
          ⟨"width: 1px;".toList, 4⟩, ⟨"\x7d".toList, 5⟩] = .ok doc₁ ∧
      ofStatements ⟨(Library.ofList []).load, 32⟩ ⟨[]⟩
        [⟨"div \x7b".toList, 1⟩, ⟨"--id: \"a\";".toList, 2⟩, ⟨"--text: \"x\";".toList, 3⟩,
          ⟨"color: red;".toList, 4⟩, ⟨"\x7d".toList, 5⟩] = .ok doc₂ ∧
      Stylesheet.render ⟨{}, doc.bindings⟩ doc.suppressDeclarations =
        .ok (joinLines ["div \x7b".toList, "    width: 1px;".toList, "\x7d".toList]) ∧
      Markup.render ⟨{}, doc.bindings⟩ doc.suppressDeclarations =
        .ok (joinLines ["<div id=\"a\">".toList, "    x".toList, "</div>".toList]) := by
    refine ⟨_, _, _, (ofStatements_eq_ok_iff (by decide)).mpr ⟨_, rfl, rfl, rfl, rfl⟩,
      (ofStatements_eq_ok_iff (by decide)).mpr ⟨_, rfl, rfl, rfl, rfl⟩,
      (ofStatements_eq_ok_iff (by decide)).mpr ⟨_, rfl, rfl, rfl, rfl⟩, ?_, ?_⟩
    · decide +kernel
    · decide +kernel
  have hvalued := classificationAt_ne_of_forall (by decide) hdoc (by decide +kernel)
  have hvalued₁ := classificationAt_ne_of_forall (by decide) hdoc₁ (by decide +kernel)
  have hvalued₂ := classificationAt_ne_of_forall (by decide) hdoc₂ (by decide +kernel)
  have hcss₁ :=
    (targets_separate (by decide) (by decide) (by decide) hvalued hvalued₁ hdoc hdoc₁ {}).1
  have hhtml₂ :=
    (targets_separate (by decide) (by decide) (by decide) hvalued hvalued₂ hdoc hdoc₂ {}).2
  refine ⟨doc, doc₁, doc₂, hdoc, hdoc₁, hdoc₂, (hcss₁ ?_ _).mp hcss, (hhtml₂ ?_ _).mp hhtml⟩
  · rintro (_ | _ | _ | _ | _ | i) s s' ⟨⟩ ⟨⟩
    on_goal 3 => exact Or.inr ⟨by decide, by decide, Or.inr (by decide)⟩
    on_goal 2 => exact Or.inr ⟨by decide, by decide, Or.inl (by decide +kernel)⟩
    all_goals exact Or.inl rfl
  · rintro (_ | _ | _ | _ | _ | i) s s' ⟨⟩ ⟨⟩
    on_goal 4 =>
      have hgeneric := (classificationAt_eq_getElem? (by decide) hdoc 3).trans
        (by decide +kernel : _ = some .generic)
      have hgeneric₂ := (classificationAt_eq_getElem? (by decide) hdoc₂ 3).trans
        (by decide +kernel : _ = some .generic)
      exact Or.inr ⟨⟨by decide, hgeneric, by decide, by decide⟩,
        ⟨by decide, hgeneric₂, by decide, by decide⟩⟩
    all_goals exact Or.inl rfl

end Document

end StyledMarkup
