import StyledMarkup.Proofs.Builder.Splice
import StyledMarkup.Proofs.Outline
import StyledMarkup.Proofs.Statement.After

/-!
# Documents without the lines

A builder carries the lines of the statements along and never looks at them: they show up in errors
only. So builders that agree in all but the lines agree in all but the lines after every further
statement of the same text, and either both or none of two feeds of the same texts comes to an end.
-/

namespace StyledMarkup

namespace Statement

/-- The statement without its line. -/
def unlined (s : Statement) : Statement :=
  { s with line := 0 }

section Fields

variable (s : Statement)

@[simp] theorem text_unlined : s.unlined.text = s.text := rfl

@[simp] theorem isComment_unlined : s.unlined.isComment = s.isComment := rfl

@[simp] theorem opens_unlined : s.unlined.opens = s.opens := rfl

@[simp] theorem closes_unlined : s.unlined.closes = s.closes := rfl

end Fields

theorem unlined_congr {s s' : Statement} (h : s.text = s'.text) : s.unlined = s'.unlined := by
  rw [unlined, unlined, h]

theorem map_unlined_eq_iff {statements statements' : List Statement} :
    statements.map unlined = statements'.map unlined ↔
      statements.map text = statements'.map text := by
  have hunlined : unlined = (fun t ↦ ⟨t, 0⟩) ∘ text := rfl
  have hinj : Function.Injective fun t : Text ↦ (⟨t, 0⟩ : Statement) :=
    fun _ _ h ↦ congrArg text h
  rw [hunlined, ← List.map_map, ← List.map_map, (List.map_injective_iff.mpr hinj).eq_iff]

end Statement

/-- The node without its line. -/
def Node.unlined (n : Node) : Node :=
  { n with line := 0 }

namespace Document

/-- The document without the lines of its nodes. -/
def unlined (doc : Document) : Document :=
  { doc with nodes := doc.nodes.map Node.unlined }

variable (doc : Document)

@[simp] theorem size_unlined : doc.unlined.size = doc.size :=
  Array.size_map

@[simp] theorem get?_unlined (i : NodeId) : doc.unlined.get? i = (doc.get? i).map Node.unlined :=
  Array.getElem?_map

theorem unlined_alloc (n : Node) : (doc.alloc n).unlined = doc.unlined.alloc n.unlined := by
  simp [alloc, unlined, size, Node.unlined]

theorem unlined_modify (i : NodeId) {f : Node → Node}
    (hf : ∀ n, (f n).unlined = f n.unlined) (nodes : Array Node) :
    (nodes.modify i f).map Node.unlined = (nodes.map Node.unlined).modify i f := by
  apply Array.ext
  · simp
  · intro j hj hj'
    simp only [Array.getElem_map, Array.getElem_modify]
    split
    · exact hf _
    · rfl

theorem unlined_attach (parent : Option NodeId) (child : NodeId) :
    (doc.attach parent child).unlined = doc.unlined.attach parent child := by
  cases parent with
  | none => rfl
  | some p =>
    have hkind : (doc.unlined.get? child).any Node.isAttribute =
        (doc.get? child).any Node.isAttribute := by
      rw [get?_unlined, Option.any_map]
      rfl
    have hadopt : ∀ n : Node, ∀ asAttribute,
        (n.adopt child asAttribute).unlined = n.unlined.adopt child asAttribute := by
      rintro n (_ | _) <;> rfl
    simp only [attach, hkind]
    simp only [unlined]
    rw [unlined_modify p (hadopt · _), unlined_modify child]
    exact fun n ↦ rfl

end Document

def OpenAttribute.unlined (a : OpenAttribute) : OpenAttribute :=
  { a with line := 0 }

namespace Builder

/-- The builder without the lines of its nodes. -/
def unlined (b : Builder) : Builder :=
  { b with doc := b.doc.unlined, openAttribute := b.openAttribute.map OpenAttribute.unlined }

section Fields

variable (b : Builder)

@[simp] theorem doc_unlined : b.unlined.doc = b.doc.unlined := rfl

@[simp] theorem scopes_unlined : b.unlined.scopes = b.scopes := rfl

@[simp] theorem mixins_unlined : b.unlined.mixins = b.mixins := rfl

@[simp] theorem openAttribute_unlined :
    b.unlined.openAttribute = b.openAttribute.map OpenAttribute.unlined := rfl

end Fields

variable (b : Builder) (s : Statement) (kind : NodeKind) (suppressed expanded : Bool)

@[simp] theorem scope_unlined : b.unlined.scope = b.scope := by
  rw [scope, scope, scopes_unlined]
  cases b.scopes with
  | nil => rfl
  | cons id outer => simp [Function.comp_def, Node.unlined]

theorem unlined_add : (b.add s kind suppressed expanded).unlined =
    b.unlined.add s.unlined kind suppressed expanded := by
  simp only [add, unlined, Document.unlined_attach, Document.unlined_alloc, Document.size_unlined]
  rfl

theorem unlined_addOpen : (b.addOpen s kind suppressed expanded).unlined =
    b.unlined.addOpen s.unlined kind suppressed expanded := by
  rw [addOpen, addOpen, ← unlined_add]
  simp [unlined]

theorem unlined_closeBlock : b.closeBlock.unlined = b.unlined.closeBlock := by
  obtain ⟨doc, scopes, mixins, openAttribute⟩ := b
  cases scopes with
  | nil => rfl
  | cons id outer =>
    have hkind : (doc.unlined.get? id).map Node.kind = (doc.get? id).map Node.kind := by
      simp [Function.comp_def, Node.unlined]
    simp only [closeBlock, unlined, hkind]
    split <;> rfl

theorem unlined_opened : Builder.unlined { b with openAttribute := opened? kind s } =
    { b.unlined with openAttribute := opened? kind s.unlined } := by
  have hopened : (opened? kind s).map OpenAttribute.unlined = opened? kind s.unlined := by
    unfold opened?
    split <;> rfl
  rw [unlined, hopened]
  rfl

theorem unlined_plain : (b.plain s expanded).unlined = b.unlined.plain s.unlined expanded := by
  simp only [plain, scope_unlined, Statement.text_unlined, Statement.opens_unlined,
    Statement.closes_unlined, ← unlined_opened]
  split
  · exact unlined_addOpen ..
  · split
    · rw [unlined_closeBlock, unlined_add]
    · exact unlined_add ..

theorem unlined_continueValue (a : OpenAttribute) : (b.continueValue a s expanded).unlined =
    b.unlined.continueValue a.unlined s.unlined expanded := by
  have hends : endsValue s.unlined = endsValue s := rfl
  have hadd := unlined_add b s
    (b.scope.classify ("--".toList ++ a.name ++ ": ".toList ++ s.text)).toKind false expanded
  simp only [continueValue, scope_unlined, hends]
  split
  · rw [unlined] at hadd ⊢
    exact congrArg (fun b : Builder ↦ { b with openAttribute := none }) hadd
  · exact hadd

end Builder

/-! ## Mixins -/

theorem Document.descendants_unlined (doc : Document) (i : NodeId) :
    doc.unlined.descendants i = doc.descendants i := by
  have hbelow : doc.unlined.below = doc.below := by
    funext i
    rw [below, get?_unlined, Option.map_map]
    rfl
  have hwithin : ∀ bound, doc.unlined.descendantsWithin bound = doc.descendantsWithin bound := by
    intro bound
    induction bound with
    | zero => rfl
    | succ bound ih =>
      funext i
      rw [descendantsWithin, descendantsWithin, hbelow, ih]
  rw [descendants, descendants, size_unlined, hwithin]

theorem Mixin.body_unlined (m : Mixin) (doc : Document) :
    m.body doc.unlined = (m.body doc).map Node.unlined := by
  unfold body
  refine Eq.trans (congrArg (List.mergeSort · _) ?_)
    (List.map_mergeSort (f := Node.unlined) fun _ _ _ _ ↦ rfl).symm
  simp only [Document.get?_unlined, Document.descendants_unlined, Option.map_map, Option.any_map]
  rw [← List.map_filterMap, List.filter_map]
  rfl

theorem Mixin.texts_expand_unlined (m : Mixin) (doc : Document) (params : Params) :
    (m.expand doc.unlined params).map Prod.snd = (m.expand doc params).map Prod.snd := by
  rw [expand, expand, body_unlined, List.map_map, List.map_map, List.map_map]
  rfl

/-! ## Feeding -/

theorem Except.exists_ok_of_toOption {ε α β : Type} {x y : Except ε α} {f : α → β} {a : α}
    (h : x.toOption.map f = y.toOption.map f) (hx : x = .ok a) : ∃ a', y = .ok a' ∧ f a = f a' := by
  rw [hx] at h
  cases y with
  | error e => simp [Except.toOption] at h
  | ok a' => exact ⟨a', rfl, Option.some.inj h⟩

theorem Except.exists_error_of_toOption {ε α β : Type} {x y : Except ε α} {f : α → β} {e : ε}
    (h : x.toOption.map f = y.toOption.map f) (hx : x = .error e) : ∃ e', y = .error e' := by
  rw [hx] at h
  cases y with
  | error e' => exact ⟨e', rfl⟩
  | ok a => simp [Except.toOption] at h

namespace Builder

/-- What taking in a statement asks for, without the lines. -/
def Step.unlined : Step → Step
  | .next b => .next b.unlined
  | .nested inner b body => .nested inner b.unlined (body.map Statement.unlined)

@[simp] theorem unlined_unlined (b : Builder) : b.unlined.unlined = b.unlined := by
  have hnode : Node.unlined ∘ Node.unlined = Node.unlined := rfl
  have hopen : OpenAttribute.unlined ∘ OpenAttribute.unlined = OpenAttribute.unlined := rfl
  simp [unlined, Document.unlined, hnode, hopen]

variable (settings : Settings) (ctx : Context) (b : Builder) (s : Statement)

theorem toOption_openMixin_unlined :
    (b.openMixin ctx s).toOption.map Step.unlined =
      (b.unlined.openMixin ctx s.unlined).toOption.map Step.unlined := by
  simp only [openMixin, Statement.text_unlined, ← unlined_addOpen]
  cases Directive.mixin? s.text with
  | none => rfl
  | some header => simp [Except.toOption, Step.unlined]

theorem toOption_importFile_unlined :
    (b.importFile settings ctx s).toOption.map Step.unlined =
      (b.unlined.importFile settings ctx s.unlined).toOption.map Step.unlined := by
  simp only [importFile, Statement.text_unlined, scopes_unlined]
  cases Directive.importTarget? s.text with
  | none => rfl
  | some target =>
    dsimp only
    split
    · rfl
    split
    · rfl
    cases settings.load (ctx.base.join ⟨target⟩).normalize with
    | error reason => rfl
    | ok source =>
      cases hscan : Statement.scan source <;> simp [Except.toOption, Step.unlined, hscan]

theorem toOption_includeMixin_unlined :
    (b.includeMixin ctx s).toOption.map Step.unlined =
      (b.unlined.includeMixin ctx s.unlined).toOption.map Step.unlined := by
  simp only [includeMixin, Statement.text_unlined, ← unlined_add]
  cases Directive.include? s.text with
  | none => rfl
  | some request =>
    dsimp only
    generalize b.add s .generic true ctx.isExpanding = b
    rw [mixins_unlined]
    cases b.mixins.find? request.name with
    | none => simp [Except.toOption, Step.unlined]
    | some m =>
      dsimp only
      split
      · rfl
      have htexts := Statement.texts_scanLines_congr
        (m.texts_expand_unlined b.doc (Directive.resolveParams m.params request.args))
      rw [doc_unlined, scopes_unlined]
      generalize Statement.scanLines (m.expand b.doc.unlined _) = scanned' at htexts ⊢
      generalize Statement.scanLines (m.expand b.doc _) = scanned at htexts ⊢
      rcases scanned with e | body <;> rcases scanned' with e' | body'
      · rfl
      · cases htexts
      · cases htexts
      · have hbody := Statement.map_unlined_eq_iff.mpr (Option.some.inj htexts)
        simp [Except.toOption, Step.unlined, hbody]

/-- Taking in a statement does not depend on the lines. -/
theorem toOption_step_unlined :
    (step settings ctx b s).toOption.map Step.unlined =
      (step settings ctx b.unlined s.unlined).toOption.map Step.unlined := by
  rw [step, step, Statement.isComment_unlined, Statement.closes_unlined, Statement.text_unlined,
    scopes_unlined, openAttribute_unlined]
  split
  · simp [Except.toOption, Step.unlined]
  cases b.openAttribute with
  | some a =>
    dsimp only [Option.map_some]
    split
    · rfl
    · simp [Except.toOption, Step.unlined, ← unlined_continueValue]
  | none =>
    dsimp only [Option.map_none]
    split_ifs
    · exact toOption_importFile_unlined settings ctx b s
    · rfl
    · exact toOption_openMixin_unlined ctx b s
    · exact toOption_includeMixin_unlined ctx b s
    · simp [Except.toOption, Step.unlined, ← unlined_plain]

theorem toOption_settle_unlined (inner : Context) :
    (b.settle inner s).toOption.map unlined =
      (b.unlined.settle inner s.unlined).toOption.map unlined := by
  rw [settle, settle, openAttribute_unlined, scopes_unlined]
  cases b.openAttribute with
  | some a => rfl
  | none =>
    dsimp only [Option.map_none]
    split
    · simp [Except.toOption]
    · rfl

section Feed

variable {settings : Settings} {ctx inner : Context} {b b' c : Builder} {s s' : Statement}

section Step

variable (hb : b.unlined = b'.unlined) (hs : s'.text = s.text)
include hb hs

theorem toOption_step_congr : (step settings ctx b s).toOption.map Step.unlined =
    (step settings ctx b' s').toOption.map Step.unlined := by
  rw [toOption_step_unlined, toOption_step_unlined settings ctx b' s', hb,
    Statement.unlined_congr hs]

theorem exists_next_congr (h : step settings ctx b s = .ok (.next c)) :
    ∃ c', step settings ctx b' s' = .ok (.next c') ∧ c.unlined = c'.unlined := by
  obtain ⟨r, hstep, hr⟩ := Except.exists_ok_of_toOption (toOption_step_congr hb hs) h
  cases r with
  | next c' => exact ⟨c', hstep, Step.next.inj hr⟩
  | nested => cases hr

theorem exists_nested_congr {body : List Statement}
    (h : step settings ctx b s = .ok (.nested inner c body)) :
    ∃ c' body', step settings ctx b' s' = .ok (.nested inner c' body') ∧
      c.unlined = c'.unlined ∧ body'.map Statement.text = body.map Statement.text := by
  obtain ⟨r, hstep, hr⟩ := Except.exists_ok_of_toOption (toOption_step_congr hb hs) h
  cases r with
  | next => cases hr
  | nested inner' c' body' =>
    obtain ⟨rfl, hc, hbody⟩ := Step.nested.inj hr
    exact ⟨c', body', hstep, hc, Statement.map_unlined_eq_iff.mp hbody.symm⟩

theorem toOption_settle_congr : (b.settle inner s).toOption.map unlined =
    (b'.settle inner s').toOption.map unlined := by
  rw [toOption_settle_unlined, toOption_settle_unlined b' s', hb, Statement.unlined_congr hs]

end Step

/-- Two feeds of the same texts differ in the lines and in nothing else. -/
theorem toOption_feed_congr {statements statements' : List Statement} (hb : b.unlined = b'.unlined)
    (hs : statements'.map Statement.text = statements.map Statement.text) :
    (feed settings ctx b statements).toOption.map unlined =
      (feed settings ctx b' statements').toOption.map unlined := by
  fun_induction Builder.feed settings ctx b statements generalizing b' statements' with
  | case1 ctx b =>
    obtain rfl := List.map_eq_nil_iff.mp hs
    rw [feed_nil, Except.toOption, Except.toOption, Option.map_some, Option.map_some, hb]
  | case2 ctx b s rest e hstep =>
    obtain ⟨s', rest', rfl, hs, hrest⟩ := List.map_eq_cons_iff.mp hs
    obtain ⟨e', hstep'⟩ :=
      Except.exists_error_of_toOption (toOption_step_congr hb hs) hstep
    rw [feed, hstep']
    rfl
  | case3 ctx b s rest c hstep ih =>
    obtain ⟨s', rest', rfl, hs, hrest⟩ := List.map_eq_cons_iff.mp hs
    obtain ⟨c', hstep', hc⟩ := exists_next_congr hb hs hstep
    rw [feed_next hstep']
    exact ih hc hrest
  | case4 ctx b s rest inner c body hstep hsmaller e hfeed ih =>
    obtain ⟨s', rest', rfl, hs, hrest⟩ := List.map_eq_cons_iff.mp hs
    obtain ⟨c', body', hstep', hc, hbody⟩ := exists_nested_congr hb hs hstep
    obtain ⟨e', hfeed'⟩ := Except.exists_error_of_toOption (ih hc hbody) hfeed
    rw [feed, hstep']
    simp only [dif_pos hsmaller, hfeed']
    rfl
  | case5 ctx b s rest inner c body hstep hsmaller fed hfeed e hsettle ih =>
    obtain ⟨s', rest', rfl, hs, hrest⟩ := List.map_eq_cons_iff.mp hs
    obtain ⟨c', body', hstep', hc, hbody⟩ := exists_nested_congr hb hs hstep
    obtain ⟨fed', hfeed', hfed⟩ := Except.exists_ok_of_toOption (ih hc hbody) hfeed
    obtain ⟨e', hsettle'⟩ :=
      Except.exists_error_of_toOption (toOption_settle_congr hfed hs) hsettle
    rw [feed, hstep']
    simp only [dif_pos hsmaller, hfeed', hsettle']
    rfl
  | case6 ctx b s rest inner c body hstep hsmaller fed hfeed settled hsettle ih₁ ih₂ =>
    obtain ⟨s', rest', rfl, hs, hrest⟩ := List.map_eq_cons_iff.mp hs
    obtain ⟨c', body', hstep', hc, hbody⟩ := exists_nested_congr hb hs hstep
    obtain ⟨fed', hfeed', hfed⟩ := Except.exists_ok_of_toOption (ih₁ hc hbody) hfeed
    obtain ⟨settled', hsettle', hsettled⟩ :=
      Except.exists_ok_of_toOption (toOption_settle_congr hfed hs) hsettle
    rw [feed_nested hstep' hsmaller hfeed' hsettle']
    exact ih₂ hsettled hrest
  | case7 ctx b s rest inner c body hstep hlarge ih =>
    obtain ⟨s', rest', rfl, hs, hrest⟩ := List.map_eq_cons_iff.mp hs
    obtain ⟨c', body', hstep', hc, hbody⟩ := exists_nested_congr hb hs hstep
    rw [feed, hstep']
    simp only [dif_neg hlarge]
    exact ih hc hrest

end Feed

theorem toOption_finish_unlined (b : Builder) :
    b.finish.toOption.map Document.unlined = b.unlined.finish.toOption := by
  have hblock : b.scopes.head?.bind b.doc.unlined.get? =
      (b.scopes.head?.bind b.doc.get?).map Node.unlined := by
    rw [Option.map_bind]
    exact congrArg (Option.bind _) (funext b.doc.get?_unlined)
  rw [finish, finish, openAttribute_unlined, scopes_unlined, doc_unlined, hblock]
  cases b.openAttribute with
  | some a => rfl
  | none => cases b.scopes.head?.bind b.doc.get? <;> rfl

end Builder

namespace Document

variable (settings : Settings) (base : Path)

theorem toOption_ofStatements_unlined (statements : List Statement) :
    (ofStatements settings base statements).toOption.map unlined =
      ((Builder.feed settings { base } {} statements).toOption.map Builder.unlined).bind
        fun b ↦ b.finish.toOption := by
  rw [ofStatements]
  cases Builder.feed settings { base } {} statements with
  | error e => rfl
  | ok b => exact b.toOption_finish_unlined

/-- The document of statements with these texts, without any lines. -/
def ofTexts (texts : List Text) : Option Document :=
  (ofStatements settings base (texts.map (⟨·, 0⟩))).toOption.map unlined

theorem ofTexts_eq (statements : List Statement) :
    ofTexts settings base (statements.map Statement.text) =
      (ofStatements settings base statements).toOption.map unlined := by
  have htexts : ((statements.map Statement.text).map fun t ↦ (⟨t, 0⟩ : Statement)).map
      Statement.text = statements.map Statement.text := by
    simp [Function.comp_def]
  rw [ofTexts, toOption_ofStatements_unlined, toOption_ofStatements_unlined,
    Builder.toOption_feed_congr rfl htexts.symm]

/-- A source is read for the texts of its statements only. -/
theorem toOption_parse_unlined (source : Text) :
    (parse settings base source).toOption.map unlined =
      ((Statement.scan source).toOption.map (List.map Statement.text)).bind
        (ofTexts settings base) := by
  rw [parse]
  cases Statement.scan source with
  | error e => rfl
  | ok statements => exact (ofTexts_eq settings base statements).symm

end Document

end StyledMarkup
