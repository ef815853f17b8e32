import Mathlib
import StyledMarkup.Page

/-!
# Filling a template

A template is filled when its first container holds the fragment, its first style element holds the
stylesheet, and everything else is as it was. The stylesheet is put in after the fragment and goes
to the first style element of what is there then. That is the one of the template exactly if it
stands before the container or the fragment has none of its own.
-/

namespace StyledMarkup

namespace Text

/-! ## First occurrences -/

/-- The piece stands in the text right after `front`, and nowhere before that. -/
structure IsFirst (piece front t : Text) : Prop where
  stands : front ++ piece <+: t
  le : ∀ {other : Text}, other ++ piece <+: t → front.length ≤ other.length

section First

variable {piece front front' t rest : Text}

theorem IsFirst.unique (h : IsFirst piece front t) (h' : IsFirst piece front' t) :
    front = front' := by
  have hlength : front.length = front'.length :=
    Nat.le_antisymm (h.le h'.stands) (h'.le h.stands)
  have hfront : front <+: t := (List.prefix_append front piece).trans h.stands
  have hfront' : front' <+: t := (List.prefix_append front' piece).trans h'.stands
  exact (List.prefix_of_prefix_length_le hfront hfront' hlength.le).eq_of_length hlength

theorem IsFirst.of_append (h : IsFirst piece front (t ++ rest)) (ht : front ++ piece <+: t) :
    IsFirst piece front t :=
  ⟨ht, fun hother ↦ h.le (hother.trans (List.prefix_append t rest))⟩

theorem IsFirst.append (h : IsFirst piece front t) (rest : Text) :
    IsFirst piece front (t ++ rest) := by
  have hstands : front ++ piece <+: t ++ rest := h.stands.trans (List.prefix_append t rest)
  refine ⟨hstands, fun {other} hother ↦ ?_⟩
  by_contra hlt
  -- an earlier occurrence ends before the first one does
  have hinside : other ++ piece <+: front ++ piece := by
    refine List.prefix_of_prefix_length_le hother hstands ?_
    simp only [List.length_append]
    omega
  exact hlt (h.le (hinside.trans h.stands))

theorem isFirst_of_splitAround? (h : splitAround? piece t = some (front, rest)) :
    t = front ++ piece ++ rest ∧ IsFirst piece front t := by
  induction t generalizing front with
  | nil =>
    obtain ⟨left, hleft, hpair⟩ := Option.map_eq_some_iff.mp h
    obtain ⟨rfl, rfl⟩ := Prod.mk.inj hpair
    rw [after?_eq_some_iff] at hleft
    exact ⟨hleft, ⟨left, hleft.symm⟩, fun _ ↦ Nat.zero_le _⟩
  | cons c cs ih =>
    rw [splitAround?] at h
    split at h
    · next left hleft =>
      obtain ⟨rfl, rfl⟩ := Prod.mk.inj (Option.some.inj h)
      rw [after?_eq_some_iff] at hleft
      exact ⟨hleft, ⟨left, hleft.symm⟩, fun _ ↦ Nat.zero_le _⟩
    · next hnone =>
      obtain ⟨⟨before, after⟩, hparts, hpair⟩ := Option.map_eq_some_iff.mp h
      obtain ⟨rfl, rfl⟩ := Prod.mk.inj hpair
      obtain ⟨hcs, hfirst⟩ := ih hparts
      refine ⟨by rw [hcs]; rfl, List.cons_prefix_cons.mpr ⟨rfl, hfirst.stands⟩, ?_⟩
      intro other hother
      cases other with
      | nil =>
        obtain ⟨left, hleft⟩ := hother
        have hsome : after? piece (c :: cs) = some left := after?_eq_some_iff.mpr hleft.symm
        cases hnone.symm.trans hsome
      | cons d other =>
        have hothers : other ++ piece <+: cs := (List.cons_prefix_cons.mp hother).2
        exact Nat.succ_le_succ (hfirst.le hothers)

theorem exists_splitAround?_of_infix (h : piece <:+: t) :
    ∃ front rest, splitAround? piece t = some (front, rest) := by
  induction t with
  | nil =>
    obtain rfl : piece = [] := List.infix_nil.mp h
    exact ⟨[], [], rfl⟩
  | cons c cs ih =>
    rw [splitAround?]
    split
    · next left _ => exact ⟨[], left, rfl⟩
    · next hnone =>
      rcases List.infix_cons_iff.mp h with ⟨left, hleft⟩ | hcs
      · rw [after?_eq_some_iff.mpr hleft.symm] at hnone
        cases hnone
      · obtain ⟨front, rest, hparts⟩ := ih hcs
        exact ⟨c :: front, rest, by rw [hparts]; rfl⟩

theorem exists_isFirst (h : piece <:+: t) :
    ∃ front rest, t = front ++ piece ++ rest ∧ IsFirst piece front t := by
  obtain ⟨front, rest, hparts⟩ := exists_splitAround?_of_infix h
  exact ⟨front, rest, isFirst_of_splitAround? hparts⟩

/-- A replacement takes the place of the first occurrence. -/
theorem replaceFirst_of_isFirst (replacement : Text)
    (h : IsFirst piece front (front ++ piece ++ rest)) :
    replaceFirst piece replacement (front ++ piece ++ rest) = front ++ replacement ++ rest := by
  have hinfix : piece <:+: front ++ piece ++ rest := List.infix_append front piece rest
  obtain ⟨front', rest', hparts⟩ := exists_splitAround?_of_infix hinfix
  obtain ⟨heq, hfirst⟩ := isFirst_of_splitAround? hparts
  obtain rfl := hfirst.unique h
  obtain rfl := List.append_cancel_left heq
  rw [replaceFirst, hparts]

end First

/-! ## Pieces that never overlap -/

/-- One of the texts starts with the other. -/
def Compatible (s t : Text) : Prop :=
  s <+: t ∨ t <+: s

instance (s t : Text) : Decidable (Compatible s t) :=
  inferInstanceAs (Decidable (_ ∨ _))

/-- However two pieces are laid over each other, they differ somewhere. -/
def Apart (p q : Text) : Prop :=
  (∀ s ∈ p.tails, s ≠ [] → ¬Compatible s q) ∧ ∀ s ∈ q.tails, s ≠ [] → ¬Compatible s p

instance (p q : Text) : Decidable (Apart p q) :=
  inferInstanceAs (Decidable (_ ∧ _))

section Apart

variable {p q x y t : Text}

theorem compatible_of_isPrefix (hx : x <+: t) (hy : y <+: t) : Compatible x y :=
  List.prefix_or_prefix_of_prefix hx hy

theorem Compatible.append_left (s : Text) (h : Compatible (s ++ x) (s ++ y)) : Compatible x y := by
  simpa only [Compatible, List.prefix_append_right_inj] using h

theorem Apart.symm (h : Apart p q) : Apart q p :=
  ⟨h.2, h.1⟩

theorem Apart.isPrefix_of_isPrefix (h : Apart p q) (hxy : x <+: y) (hx : x ++ p <+: t)
    (hy : y ++ q <+: t) : x ++ p <+: y := by
  obtain ⟨gap, rfl⟩ := hxy
  rw [List.append_assoc] at hy
  have hboth : Compatible p (gap ++ q) := (compatible_of_isPrefix hx hy).append_left x
  have hgap : Compatible p gap := by
    rcases hboth with hp | hq
    · exact compatible_of_isPrefix hp (List.prefix_append gap q)
    · exact Or.inr ((List.prefix_append gap q).trans hq)
  rw [List.prefix_append_right_inj]
  rcases hgap with hp | ⟨s, rfl⟩
  · exact hp
  · -- what is left of the first piece would start like the second one
    cases s with
    | nil => simp
    | cons c s =>
      refine (h.1 (c :: s) ?_ (List.cons_ne_nil c s) (hboth.append_left gap)).elim
      exact List.mem_tails _ _ |>.mpr (List.suffix_append gap (c :: s))

/-- Pieces that never overlap stand one after the other in every text. -/
theorem Apart.isPrefix_or_isPrefix (h : Apart p q) (hx : x ++ p <+: t) (hy : y ++ q <+: t) :
    x ++ p <+: y ∨ y ++ q <+: x := by
  have hfront : x <+: t := (List.prefix_append x p).trans hx
  have hfront' : y <+: t := (List.prefix_append y q).trans hy
  rcases compatible_of_isPrefix hfront hfront' with hxy | hyx
  · exact Or.inl (h.isPrefix_of_isPrefix hxy hx hy)
  · exact Or.inr (h.symm.isPrefix_of_isPrefix hyx hy hx)

end Apart

end Text

namespace Page

open Text (IsFirst Apart)

/-! ## What filling a template means -/

/-- The template has its first container before its first style element. -/
structure AppFirst (template a b c : Text) : Prop where
  eq : template = a ++ appPlaceholder ++ b ++ stylePlaceholder ++ c
  app : IsFirst appPlaceholder a template
  style : IsFirst stylePlaceholder (a ++ appPlaceholder ++ b) template

/-- The template has its first style element before its first container. -/
structure StyleFirst (template a b c : Text) : Prop where
  eq : template = a ++ stylePlaceholder ++ b ++ appPlaceholder ++ c
  style : IsFirst stylePlaceholder a template
  app : IsFirst appPlaceholder (a ++ stylePlaceholder ++ b) template

/-- The page is the template with the fragment in its first container, the stylesheet in its first
style element, and nothing else changed. -/
inductive Fills (template html css : Text) : Text → Prop
  | appFirst {a b c : Text} (h : AppFirst template a b c) :
    Fills template html css (a ++ filledApp html ++ b ++ filledStyle css ++ c)
  | styleFirst {a b c : Text} (h : StyleFirst template a b c) :
    Fills template html css (a ++ filledStyle css ++ b ++ filledApp html ++ c)

/-! ## The order of the placeholders -/

def appOpening : Text := "<div id=\"app\">\n".toList

def appClosing : Text := "\n</div>".toList

def styleOpening : Text := "<style id=\"stylesheet\">\n".toList

def styleClosing : Text := "\n</style>".toList

theorem filledApp_eq (html : Text) : filledApp html = appOpening ++ html ++ appClosing :=
  rfl

theorem filledStyle_eq (css : Text) : filledStyle css = styleOpening ++ css ++ styleClosing :=
  rfl

section Template

variable {template a b c a' b' c' : Text}

theorem apart_app : Apart stylePlaceholder appPlaceholder := by
  decide

theorem apart_opening : Apart stylePlaceholder appOpening := by
  decide

theorem apart_closing : Apart stylePlaceholder appClosing := by
  decide

/-- A template with both placeholders has them in one order or the other. -/
theorem appFirst_or_styleFirst (happ : appPlaceholder <:+: template)
    (hstyle : stylePlaceholder <:+: template) :
    (∃ a b c, AppFirst template a b c) ∨ ∃ a b c, StyleFirst template a b c := by
  obtain ⟨front, after, happEq, happFirst⟩ := Text.exists_isFirst happ
  obtain ⟨front', after', hstyleEq, hstyleFirst⟩ := Text.exists_isFirst hstyle
  rcases apart_app.isPrefix_or_isPrefix hstyleFirst.stands happFirst.stands with ⟨b, hb⟩ | ⟨b, hb⟩
  · subst hb
    exact Or.inr ⟨front', b, after, happEq, hstyleFirst, happFirst⟩
  · subst hb
    exact Or.inl ⟨front, b, after', hstyleEq, happFirst, hstyleFirst⟩

theorem AppFirst.unique (h : AppFirst template a b c) (h' : AppFirst template a' b' c') :
    a = a' ∧ b = b' ∧ c = c' := by
  obtain rfl := h.app.unique h'.app
  obtain rfl := List.append_cancel_left (h.style.unique h'.style)
  exact ⟨rfl, rfl, List.append_cancel_left (h.eq.symm.trans h'.eq)⟩

theorem StyleFirst.unique (h : StyleFirst template a b c) (h' : StyleFirst template a' b' c') :
    a = a' ∧ b = b' ∧ c = c' := by
  obtain rfl := h.style.unique h'.style
  obtain rfl := List.append_cancel_left (h.app.unique h'.app)
  exact ⟨rfl, rfl, List.append_cancel_left (h.eq.symm.trans h'.eq)⟩

theorem AppFirst.not_styleFirst (h : AppFirst template a b c) :
    ¬StyleFirst template a' b' c' := by
  intro h'
  have hlength := congrArg List.length (h.app.unique h'.app)
  have hlength' := congrArg List.length (h.style.unique h'.style)
  have hpos : 0 < stylePlaceholder.length := by decide
  simp only [List.length_append] at hlength hlength'
  omega

theorem Fills.unique {html css page page' : Text} (h : Fills template html css page)
    (h' : Fills template html css page') : page = page' := by
  cases h with
  | appFirst h =>
    cases h' with
    | appFirst h' =>
      obtain ⟨rfl, rfl, rfl⟩ := h.unique h'
      rfl
    | styleFirst h' => exact (h.not_styleFirst h').elim
  | styleFirst h =>
    cases h' with
    | appFirst h' => exact (h'.not_styleFirst h).elim
    | styleFirst h' =>
      obtain ⟨rfl, rfl, rfl⟩ := h.unique h'
      rfl

/-! ## The style element that is filled -/

theorem AppFirst.replace_app (h : AppFirst template a b c) (html : Text) :
    Text.replaceFirst appPlaceholder (filledApp html) template =
      a ++ filledApp html ++ (b ++ stylePlaceholder ++ c) := by
  have hfirst := h.app
  have hparts : template = a ++ appPlaceholder ++ (b ++ stylePlaceholder ++ c) := by
    simpa only [List.append_assoc] using h.eq
  rw [hparts] at hfirst ⊢
  exact Text.replaceFirst_of_isFirst _ hfirst

theorem StyleFirst.inject_eq (h : StyleFirst template a b c) (html css : Text) :
    inject template html css = a ++ filledStyle css ++ b ++ filledApp html ++ c := by
  have happ := h.app
  have hstyle := h.style
  rw [h.eq] at happ hstyle ⊢
  rw [inject, Text.replaceFirst_of_isFirst _ happ]
  have hkept : IsFirst stylePlaceholder a
      (a ++ stylePlaceholder ++ (b ++ filledApp html ++ c)) := by
    have hstands : a ++ stylePlaceholder <+: a ++ stylePlaceholder := List.prefix_rfl
    rw [List.append_assoc _ appPlaceholder, List.append_assoc _ b] at hstyle
    exact (hstyle.of_append hstands).append _
  have hfilled := Text.replaceFirst_of_isFirst (filledStyle css) hkept
  simpa only [List.append_assoc] using hfilled

/-- A style element in the page stands before the container, in the fragment, or after the
container. -/
theorem cases_of_style {html rest other : Text}
    (h : other ++ stylePlaceholder <+: a ++ filledApp html ++ rest) :
    other ++ stylePlaceholder <+: a ∨
      (∃ inner, other = a ++ appOpening ++ inner ∧
        inner ++ stylePlaceholder <+: html) ∨
      ∃ inner, other = a ++ filledApp html ++ inner ∧ inner ++ stylePlaceholder <+: rest := by
  have hopening : a ++ appOpening <+: a ++ filledApp html ++ rest :=
    ⟨html ++ appClosing ++ rest, by simp only [filledApp_eq, List.append_assoc]⟩
  have hclosing : a ++ appOpening ++ html ++ appClosing <+:
      a ++ filledApp html ++ rest :=
    ⟨rest, by simp only [filledApp_eq, List.append_assoc]⟩
  rcases apart_opening.isPrefix_or_isPrefix h hopening with hbefore | ⟨inner, rfl⟩
  · exact Or.inl hbefore
  · rcases apart_closing.isPrefix_or_isPrefix h hclosing with hinside | ⟨after, hafter⟩
    · refine Or.inr (Or.inl ⟨inner, rfl, ?_⟩)
      rwa [List.append_assoc _ inner, List.prefix_append_right_inj] at hinside
    · have hother : a ++ appOpening ++ inner = a ++ filledApp html ++ after := by
        simpa only [filledApp_eq, List.append_assoc] using hafter.symm
      refine Or.inr (Or.inr ⟨after, hother, ?_⟩)
      rwa [hother, List.append_assoc _ after, List.prefix_append_right_inj] at h

variable {html css : Text}

theorem AppFirst.not_style_before (h : AppFirst template a b c) {other : Text} :
    ¬other ++ stylePlaceholder <+: a := by
  intro hother
  have hle := h.style.le (hother.trans ((List.prefix_append a _).trans h.app.stands))
  have hlength := hother.length_le
  have hpos : 0 < stylePlaceholder.length := by decide
  simp only [List.length_append] at hle hlength
  omega

/-- Without a style element in the fragment, the one of the template is filled. -/
theorem AppFirst.inject_eq (h : AppFirst template a b c) (hhtml : ¬stylePlaceholder <:+: html) :
    inject template html css = a ++ filledApp html ++ b ++ filledStyle css ++ c := by
  have hfirst : IsFirst stylePlaceholder (a ++ filledApp html ++ b)
      (a ++ filledApp html ++ b ++ stylePlaceholder ++ c) := by
    refine ⟨List.prefix_append _ c, fun {other} hother ↦ ?_⟩
    simp only [List.append_assoc _ b, List.append_assoc _ (b ++ _)] at hother
    rcases cases_of_style hother with hbefore | ⟨inner, -, hinside⟩ | ⟨inner, rfl, hafter⟩
    · exact (h.not_style_before hbefore).elim
    · exact (hhtml ((List.suffix_append inner _).isInfix.trans hinside.isInfix)).elim
    · -- the same style element stands in the template
      have htemplate : a ++ appPlaceholder ++ inner ++ stylePlaceholder <+: template := by
        rw [h.eq]
        simpa only [List.append_assoc, List.prefix_append_right_inj] using hafter
      have hle := h.style.le htemplate
      simp only [List.length_append] at hle ⊢
      omega
  have hfilled := Text.replaceFirst_of_isFirst (filledStyle css) hfirst
  rw [inject, h.replace_app]
  simpa only [List.append_assoc] using hfilled

/-- A style element in the fragment is filled in place of the one of the template. -/
theorem AppFirst.inject_eq_of_infix (h : AppFirst template a b c)
    (hhtml : stylePlaceholder <:+: html) :
    inject template html css =
      a ++ filledApp (Text.replaceFirst stylePlaceholder (filledStyle css) html) ++ b ++
        stylePlaceholder ++ c := by
  obtain ⟨front, after, rfl, hinner⟩ := Text.exists_isFirst hhtml
  have hfirst : IsFirst stylePlaceholder (a ++ appOpening ++ front)
      (a ++ appOpening ++ front ++ stylePlaceholder ++
        (after ++ appClosing ++ (b ++ stylePlaceholder ++ c))) := by
    refine ⟨List.prefix_append _ _, fun {other} hother ↦ ?_⟩
    have hpage : other ++ stylePlaceholder <+:
        a ++ filledApp (front ++ stylePlaceholder ++ after) ++ (b ++ stylePlaceholder ++ c) := by
      simpa only [filledApp_eq, List.append_assoc] using hother
    rcases cases_of_style hpage with hbefore | ⟨inner, rfl, hinside⟩ | ⟨inner, rfl, -⟩
    · exact (h.not_style_before hbefore).elim
    · have hle := hinner.le hinside
      simp only [List.length_append] at hle ⊢
      omega
    · simp only [filledApp_eq, List.length_append]
      omega
  have hfilled := Text.replaceFirst_of_isFirst (filledStyle css) hfirst
  rw [inject, h.replace_app, Text.replaceFirst_of_isFirst _ hinner]
  simpa only [filledApp_eq, List.append_assoc] using hfilled

/-- In the template of a project that has none the style element leads. -/
theorem styleFirst_defaultTemplate :
    StyleFirst defaultTemplate
      "<!DOCTYPE html>\n<html>\n<head>\n  <meta charset=\"UTF-8\">\n  ".toList
      "\n</head>\n<body>\n  ".toList "\n</body>\n</html>\n".toList := by
  have hstyle : Text.splitAround? stylePlaceholder defaultTemplate =
      some ("<!DOCTYPE html>\n<html>\n<head>\n  <meta charset=\"UTF-8\">\n  ".toList,
        "\n</head>\n<body>\n  ".toList ++ appPlaceholder ++ "\n</body>\n</html>\n".toList) := by
    cbv
  have happ : Text.splitAround? appPlaceholder defaultTemplate =
      some ("<!DOCTYPE html>\n<html>\n<head>\n  <meta charset=\"UTF-8\">\n  ".toList ++
        stylePlaceholder ++ "\n</head>\n<body>\n  ".toList, "\n</body>\n</html>\n".toList) := by
    cbv
  obtain ⟨heq, hfirst⟩ := Text.isFirst_of_splitAround? happ
  exact ⟨heq, (Text.isFirst_of_splitAround? hstyle).2, hfirst⟩

/-- What is filled is no longer a placeholder. -/
theorem not_isPrefix_filledStyle (css rest : Text) :
    ¬stylePlaceholder <+: filledStyle css ++ rest := by
  intro hprefix
  have hopening : styleOpening <+: filledStyle css ++ rest := by
    rw [filledStyle_eq, List.append_assoc, List.append_assoc]
    exact List.prefix_append _ _
  exact absurd (Text.compatible_of_isPrefix hprefix hopening) (by decide)

/-- A fragment whose style element is filled is not the fragment. -/
theorem AppFirst.not_fills_of_infix (h : AppFirst template a b c)
    (hhtml : stylePlaceholder <:+: html) :
    ¬Fills template html css (inject template html css) := by
  intro hfills
  have heq := hfills.unique (.appFirst h)
  rw [h.inject_eq_of_infix hhtml] at heq
  obtain ⟨front, after, rfl, hinner⟩ := Text.exists_isFirst hhtml
  rw [Text.replaceFirst_of_isFirst _ hinner] at heq
  simp only [filledApp_eq, List.append_assoc, List.append_cancel_left_eq] at heq
  exact not_isPrefix_filledStyle css _ ⟨_, heq.symm⟩

end Template

/-- Every template with both placeholders is filled in one way. The page is the template filled
exactly if the first style element of the template stands before the container or the fragment has
no style element to be filled. -/
theorem inject_fills_iff {template : Text} (happ : appPlaceholder <:+: template)
    (hstyle : stylePlaceholder <:+: template) (html css : Text) :
    (∃! page, Fills template html css page) ∧
      (Fills template html css (inject template html css) ↔
        (∃ a b c, StyleFirst template a b c) ∨ ¬stylePlaceholder <:+: html) := by
  rcases appFirst_or_styleFirst happ hstyle with ⟨a, b, c, h⟩ | ⟨a, b, c, h⟩
  · refine ⟨⟨_, .appFirst h, fun page hpage ↦ hpage.unique (.appFirst h)⟩, ?_⟩
    constructor
    · intro hfills
      exact Or.inr fun hhtml ↦ h.not_fills_of_infix hhtml hfills
    · rintro (⟨a', b', c', h'⟩ | hhtml)
      · exact (h.not_styleFirst h').elim
      · rw [h.inject_eq hhtml]
        exact .appFirst h
  · refine ⟨⟨_, .styleFirst h, fun page hpage ↦ hpage.unique (.styleFirst h)⟩, ?_⟩
    have hfills : Fills template html css (inject template html css) := by
      rw [h.inject_eq]
      exact .styleFirst h
    exact ⟨fun _ ↦ Or.inl ⟨a, b, c, h⟩, fun _ ↦ hfills⟩

theorem inject_fills_iff_plain :
    Fills (appPlaceholder ++ stylePlaceholder) "<p>\n</p>".toList "p \x7b\n\x7d".toList
        (inject (appPlaceholder ++ stylePlaceholder) "<p>\n</p>".toList "p \x7b\n\x7d".toList) ∧
      ∃! page, Fills (appPlaceholder ++ stylePlaceholder) stylePlaceholder [] page := by
  have happ : appPlaceholder <:+: appPlaceholder ++ stylePlaceholder :=
    (List.prefix_append _ _).isInfix
  have hstyle : stylePlaceholder <:+: appPlaceholder ++ stylePlaceholder :=
    (List.suffix_append _ _).isInfix
  have hhtml : ¬stylePlaceholder <:+: "<p>\n</p>".toList := by decide
  exact ⟨(inject_fills_iff happ hstyle _ _).2.mpr (Or.inr hhtml),
    (inject_fills_iff happ hstyle _ _).1⟩

/-- A template whose container comes first is not filled when the fragment has a style element. -/
theorem not_forall_inject_fills :
    ¬∀ template html css : Text, appPlaceholder <:+: template → stylePlaceholder <:+: template →
      Fills template html css (inject template html css) := by
  intro hall
  have happ : [] ++ appPlaceholder <+: appPlaceholder ++ stylePlaceholder :=
    List.prefix_append _ _
  have hstyle : stylePlaceholder <:+: appPlaceholder ++ stylePlaceholder :=
    (List.suffix_append _ _).isInfix
  have hfirst : AppFirst (appPlaceholder ++ stylePlaceholder) [] [] [] := by
    refine ⟨rfl, ⟨happ, fun _ ↦ Nat.zero_le _⟩, List.prefix_rfl, fun {other} hother ↦ ?_⟩
    rcases apart_app.isPrefix_or_isPrefix hother happ with hbefore | hafter
    · rw [List.prefix_nil, List.append_eq_nil_iff] at hbefore
      exact absurd hbefore.2 (by decide)
    · exact hafter.length_le
  exact hfirst.not_fills_of_infix List.infix_rfl
    (hall _ stylePlaceholder [] happ.isInfix hstyle)

end Page

end StyledMarkup
