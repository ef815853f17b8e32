import StyledMarkup.Proofs.Builder.Run
import StyledMarkup.Proofs.Document.Descendants

/-!
# Feeds are runs

Feeding statements gives what the run on them comes to: the builder at its end, or the error it
stops with. The one place where a feed does not follow the run is a nested feed that is not smaller.
Such a feed has no statements, so the run only enters and leaves it.
-/

namespace StyledMarkup

/-- A mixin that is a node of an expansion has an empty body. -/
theorem Mixin.expand_eq_nil {b : Builder} (hlinked : b.doc.Linked) (hbelow : b.ExpandedBelow)
    {m : Mixin} (hexp : b.doc.has Node.expanded m.node = true) (params : Params) :
    m.expand b.doc params = [] := by
  have hall : ∀ id, b.doc.Below m.node id → b.doc.has Node.expanded id = true := by
    intro id hid
    induction hid with
    | single hparent => exact hbelow _ _ hparent hexp
    | tail _ hparent ih => exact hbelow _ _ hparent ih
  have hbody : m.body b.doc = [] := by
    unfold Mixin.body
    dsimp only
    rw [List.filter_eq_nil_iff.mpr ?_, List.mergeSort_nil]
    intro n hn
    obtain ⟨id, hid, hget⟩ := List.mem_filterMap.mp hn
    have hnode := hall id (hlinked.coherent.mem_descendants.mp (List.mem_filter.mp hid).1)
    simpa [Document.has, hget] using hnode
  rw [Mixin.expand, hbody, List.map_nil]

/-! ## Feeding one statement -/

namespace Builder

section Equations

variable {settings : Settings} {ctx inner : Context} {b b' fed settled : Builder} {s : Statement}
  {rest body : List Statement}

theorem feed_nil : feed settings ctx b [] = .ok b := by
  rw [feed]

theorem feed_next (h : step settings ctx b s = .ok (.next b')) :
    feed settings ctx b (s :: rest) = feed settings ctx b' rest := by
  rw [feed, h]

theorem feed_nested (h : step settings ctx b s = .ok (.nested inner b' body))
    (hsmaller : IsSmaller settings inner ctx) (hbody : feed settings inner b' body = .ok fed)
    (hsettle : fed.settle inner s = .ok settled) :
    feed settings ctx b (s :: rest) = feed settings ctx settled rest := by
  rw [feed, h]
  simp only [dif_pos hsmaller, hbody, hsettle]

theorem feed_singleton (h : b.feed settings ctx [s] = .ok b') :
    ∃ r, b.step settings ctx s = .ok r ∧
      ((r.builder = b' ∧ ∀ inner b₁ body, r = .nested inner b₁ body →
          ¬IsSmaller settings inner ctx) ∨
        ∃ inner b₁ body, r = .nested inner b₁ body ∧
          b₁.feed settings inner body = .ok b' ∧ b'.settle inner s = .ok b') := by
  rw [feed] at h
  split at h
  · cases h
  · next b₁ hstep =>
    rw [feed_nil] at h
    cases h
    exact ⟨_, hstep, Or.inl ⟨rfl, by simp⟩⟩
  · next inner b₁ body hstep =>
    split at h
    · split at h
      · cases h
      · next fed hbody =>
        split at h
        · cases h
        · next settled hsettle =>
          rw [feed_nil] at h
          cases h
          obtain ⟨rfl, -⟩ := settle_eq_ok hsettle
          exact ⟨_, hstep, Or.inr ⟨inner, b₁, body, rfl, hbody, hsettle⟩⟩
    · next hlarge =>
      rw [feed_nil] at h
      cases h
      refine ⟨_, hstep, Or.inl ⟨rfl, ?_⟩⟩
      rintro _ _ _ ⟨⟩
      exact hlarge

end Equations

/-! ## What feeds keep -/

section Keeps

variable {settings : Settings} {ctx inner : Context} {b b' : Builder} {s : Statement} {r : Step}
  {statements body : List Statement}

theorem Sound.step (hb : b.Sound) (hs : s.IsShaped) (h : b.step settings ctx s = .ok r) :
    r.builder.Sound :=
  hb.intake hs ((taken_of_step h).intake hs hb.attentive)

theorem isShaped_of_nested (h : b.step settings ctx s = .ok (.nested inner b' body)) :
    ∀ t ∈ body, t.IsShaped := by
  have htaken := taken_of_step h
  generalize b.roleOf s = role at htaken
  cases htaken with
  | importFile target path source body hopen htarget hpath hdepth hcycle hload hscan =>
    exact Statement.isShaped_of_scan hscan
  | expand request m body hopen hrequest hfind hactive hscan =>
    exact Statement.isShaped_of_scanLines hscan

theorem nested_cases (h : b.step settings ctx s = .ok (.nested inner b' body)) :
    inner.floor = b.scopes.length ∧ (b'.doc = b.doc ∨
      b'.doc = b.doc.graft b.scopes.head? s .generic true ctx.isExpanding) := by
  have htaken := taken_of_step h
  generalize b.roleOf s = role at htaken
  cases htaken with
  | importFile => exact ⟨rfl, Or.inl rfl⟩
  | expand => exact ⟨Context.floor_enterMixin _ _ _ _, Or.inr rfl⟩

/-- What every step keeps is kept by a feed, if no step asks for another kind of feed, or for
statements of another kind, than those it is taken in with. -/
theorem feed_keeps_within {C : Context → Prop} {I : Builder → Prop} {P : Statement → Prop}
    (hstep : ∀ {ctx b s r}, C ctx → I b → P s → Builder.step settings ctx b s = .ok r →
      I r.builder ∧ ∀ {inner b' body}, r = .nested inner b' body → C inner ∧ ∀ t ∈ body, P t)
    (hctx : C ctx) (hb : I b) (hstatements : ∀ s ∈ statements, P s)
    (h : b.feed settings ctx statements = .ok b') : I b' := by
  fun_induction Builder.feed settings ctx b statements generalizing b' with
  | case1 ctx b =>
    cases h
    exact hb
  | case2 | case4 | case5 => cases h
  | case3 ctx b s rest b₁ hs ih =>
    rw [List.forall_mem_cons] at hstatements
    exact ih hctx (hstep hctx hb hstatements.1 hs).1 hstatements.2 h
  | case6 ctx b s rest inner b₁ body hs hsmaller fed hbody settled hsettle ih₁ ih₂ =>
    rw [List.forall_mem_cons] at hstatements
    obtain ⟨hb₁, hnested⟩ := hstep hctx hb hstatements.1 hs
    have hfed := ih₁ (hnested rfl).1 hb₁ (hnested rfl).2 hbody
    obtain ⟨rfl, -⟩ := settle_eq_ok hsettle
    exact ih₂ hctx hfed hstatements.2 h
  | case7 ctx b s rest inner b₁ body hs hlarge ih =>
    rw [List.forall_mem_cons] at hstatements
    exact ih hctx (hstep hctx hb hstatements.1 hs).1 hstatements.2 h

/-- What every step keeps is kept by a feed, if no step asks for statements of another kind than
those that are fed. -/
theorem feed_keeps {I : Builder → Prop} {P : Statement → Prop}
    (hstep : ∀ {ctx b s r}, I b → P s → Builder.step settings ctx b s = .ok r →
      I r.builder ∧ ∀ {inner b' body}, r = .nested inner b' body → ∀ t ∈ body, P t)
    (hb : I b) (hstatements : ∀ s ∈ statements, P s)
    (h : b.feed settings ctx statements = .ok b') : I b' := by
  refine feed_keeps_within (C := fun _ ↦ True) ?_ trivial hb hstatements h
  intro ctx b s r _ hb hs hr
  obtain ⟨hkept, hnested⟩ := hstep hb hs hr
  exact ⟨hkept, fun hbody ↦ ⟨trivial, hnested hbody⟩⟩

end Keeps

end Builder

/-! ## Agreement -/

/-- What the run of a feed comes to when the feed has this result. -/
def Moment.Answers (settings : Settings) (ctx : Context) (callers : List Caller) (m : Moment) :
    Except ParseError Builder → Prop
  | .ok b => m.builder = b ∧ m.ctx = ctx ∧ m.rest = [] ∧ m.callers = callers
  | .error e => Fails settings m e

section Agreement

variable {settings : Settings} {b b' : Builder} {ctx inner : Context} {s : Statement}
  {rest body : List Statement} {callers : List Caller} {log : List Fed}

/-- A nested feed that is not smaller has nothing to feed. -/
theorem Moment.Sound.nested_trivial (h : Moment.Sound settings ⟨b, ctx, s :: rest, callers, log⟩)
    (hstep : b.step settings ctx s = .ok (.nested inner b' body))
    (hlarge : ¬Builder.IsSmaller settings inner ctx) :
    body = [] ∧ b'.settle inner s = .ok b' := by
  have htake := h.take hstep log
  have htaken := Builder.taken_of_step hstep
  generalize Builder.roleOf _ _ = role at htaken
  cases htaken with
  | importFile target path source body hopen htarget hpath hdepth hcycle hload hscan =>
    refine absurd (Or.inl ?_) hlarge
    simp only [Builder.importsLeft, Context.enterImport, List.length_cons]
    omega
  | expand request m body hopen hrequest hfind hactive hscan =>
    have himports : ∀ mixins floor,
        Builder.importsLeft settings (ctx.enterMixin mixins request.name floor) =
          Builder.importsLeft settings ctx := by
      simp [Builder.importsLeft]
    have hexp : ctx.isExpanding = true := by
      by_contra hquiet
      refine hlarge (Or.inr ⟨himports _ _, Or.inl ?_⟩)
      simp [Builder.outside, hquiet]
    have havailable : request.name ∉ ctx.available := by
      intro hmem
      refine hlarge (Or.inr ⟨himports _ _, Or.inr ⟨by simp [Builder.outside, hexp], ?_⟩⟩)
      obtain ⟨e, he⟩ := Option.isSome_iff_exists.mp hexp
      simp only [Context.available, he, Option.map_some, Option.getD_some] at hmem
      simp only [Context.available, Context.enterMixin, he, Option.map_some, Option.getD_some,
        List.length_erase_of_mem hmem]
      exact Nat.sub_lt (List.length_pos_of_mem hmem) Nat.one_pos
    have hname : m.name = request.name := by simpa using List.find?_some hfind
    have hmem : m ∈ b.mixins.mixins := List.mem_of_find?_eq_some hfind
    rcases htake.accounts ctx List.mem_cons_self hexp m hmem with hin | hin | hnode
    · exact absurd (hname ▸ hin) hactive
    · exact absurd (hname ▸ hin) havailable
    · have hnil := Mixin.expand_eq_nil htake.builder_sound.doc_sound.linked htake.expandedBelow
        hnode (Directive.resolveParams m.params request.args)
      have hbody : Statement.scanLines [] = .ok body := by
        rw [← hnil]
        exact hscan
      refine ⟨(Except.ok.inj hbody).symm, ?_⟩
      simp [Builder.settle, Builder.add, hopen]

theorem exists_run_of_feed (callers : List Caller) (log : List Fed) (ctx : Context) (b : Builder)
    (statements : List Statement)
    (h : Moment.Sound settings ⟨b, ctx, statements, callers, log⟩) :
    ∃ m, Runs settings ⟨b, ctx, statements, callers, log⟩ m ∧
      m.Answers settings ctx callers (b.feed settings ctx statements) := by
  fun_induction Builder.feed settings ctx b statements generalizing callers log with
  | case1 ctx b => exact ⟨_, .refl, rfl, rfl, rfl, rfl⟩
  | case2 ctx b s rest e hstep => exact ⟨_, .refl, .statement hstep⟩
  | case3 ctx b s rest b' hstep ih =>
    obtain ⟨m, hruns, hm⟩ := ih _ _ (h.moves (.next hstep))
    exact ⟨m, hruns.head (.next hstep), hm⟩
  | case4 ctx b s rest inner b' body hstep hsmaller e hfeed ih =>
    obtain ⟨m, hruns, hm⟩ := ih _ _ (h.moves (.nested hstep))
    rw [hfeed] at hm
    exact ⟨m, hruns.head (.nested hstep), hm⟩
  | case5 ctx b s rest inner b' body hstep hsmaller fed hfeed e hsettle ih =>
    obtain ⟨⟨b₁, ctx₁, rest₁, callers₁, log₁⟩, hruns, hm⟩ := ih _ _ (h.moves (.nested hstep))
    rw [hfeed] at hm
    obtain ⟨rfl, rfl, rfl, rfl⟩ := hm
    exact ⟨_, hruns.head (.nested hstep), .settle hsettle⟩
  | case6 ctx b s rest inner b' body hstep hsmaller fed hfeed settled hsettle ih₁ ih₂ =>
    obtain ⟨⟨b₁, ctx₁, rest₁, callers₁, log₁⟩, hruns, hm⟩ := ih₁ _ _ (h.moves (.nested hstep))
    have hsound := (h.moves (.nested hstep)).runs hruns
    rw [hfeed] at hm
    obtain ⟨rfl, rfl, rfl, rfl⟩ := hm
    obtain ⟨m, hruns', hm⟩ := ih₂ _ _ (hsound.moves (.settle hsettle))
    exact ⟨m, (hruns.head (.nested hstep)).trans (hruns'.head (.settle hsettle)), hm⟩
  | case7 ctx b s rest inner b' body hstep hlarge ih =>
    obtain ⟨rfl, hsettle⟩ := h.nested_trivial hstep hlarge
    have hleave : ∀ log', Moves settings ⟨b', inner, [], ⟨ctx, s, rest⟩ :: callers, log'⟩
        ⟨b', ctx, rest, callers, log'⟩ := fun log' ↦ .settle hsettle
    obtain ⟨m, hruns, hm⟩ := ih _ _ ((h.moves (.nested hstep)).moves (hleave _))
    exact ⟨m, (hruns.head (hleave _)).head (.nested hstep), hm⟩

end Agreement

/-! ## Whole sources -/

section Parse

variable (settings : Settings) (base : Path) {source : Text}

/-- Every run comes to a standstill, and the answer to the source is what it comes to. -/
theorem exists_standstill {statements : List Statement}
    (hscan : Statement.scan source = .ok statements) :
    ∃ m, Runs settings (Moment.start base statements) m ∧
      (m.IsFinished ∧ Document.parse settings base source = m.builder.finish ∨
        ∃ e, Fails settings m e ∧ Document.parse settings base source = .error e) := by
  obtain ⟨m, hruns, hm⟩ := exists_run_of_feed [] [] { base } {} statements
    (Moment.sound_start (Statement.isShaped_of_scan hscan))
  refine ⟨m, hruns, ?_⟩
  simp only [Document.parse, hscan, Document.ofStatements]
  cases hfeed : Builder.feed settings { base } {} statements with
  | error e =>
    rw [hfeed] at hm
    exact Or.inr ⟨e, hm, rfl⟩
  | ok b =>
    rw [hfeed] at hm
    obtain ⟨rfl, -, hrest, hcallers⟩ := hm
    exact Or.inl ⟨⟨hrest, hcallers⟩, rfl⟩

variable {settings base} {m : Moment} {e : ParseError}

theorem exists_reachable_of_parse {doc : Document}
    (h : Document.parse settings base source = .ok doc) :
    ∃ m, Reachable settings base source m ∧ m.IsFinished ∧ m.builder.finish = .ok doc := by
  cases hscan : Statement.scan source with
  | error e => simp [Document.parse, hscan] at h
  | ok statements =>
    obtain ⟨m, hruns, ⟨hfinished, hparse⟩ | ⟨e, -, hparse⟩⟩ :=
      exists_standstill settings base hscan
    · exact ⟨m, ⟨statements, hscan, hruns⟩, hfinished, hparse.symm.trans h⟩
    · rw [hparse] at h
      cases h

/-- Every point of a run leads to the answer. -/
theorem Reachable.to_answer (h : Reachable settings base source m) :
    ∃ m', Runs settings m m' ∧
      (m'.IsFinished ∧ Document.parse settings base source = m'.builder.finish ∨
        ∃ e, Fails settings m' e ∧ Document.parse settings base source = .error e) := by
  obtain ⟨statements, hscan, hruns⟩ := h
  obtain ⟨m', hruns', hm'⟩ := exists_standstill settings base hscan
  refine ⟨m', hruns.to_standstill hruns' ?_, hm'⟩
  rcases hm' with ⟨hfinished, -⟩ | ⟨e, hfails, -⟩
  · exact hfinished.not_moves
  · exact hfails.not_moves

theorem Reachable.parse_of_fails (h : Reachable settings base source m)
    (hfails : Fails settings m e) : Document.parse settings base source = .error e := by
  obtain ⟨m', hruns, hanswer⟩ := h.to_answer
  obtain rfl := hruns.eq_of_not_moves hfails.not_moves
  rcases hanswer with ⟨hfinished, -⟩ | ⟨e', hfails', hparse⟩
  · obtain ⟨hrest, hcallers⟩ := hfinished
    cases hfails <;> cases hrest
    cases hcallers
  · rw [hparse, hfails'.unique hfails]

theorem Reachable.parse_of_finished (h : Reachable settings base source m)
    (hfinished : m.IsFinished) : Document.parse settings base source = m.builder.finish := by
  obtain ⟨m', hruns, hanswer⟩ := h.to_answer
  obtain rfl := hruns.eq_of_not_moves hfinished.not_moves
  rcases hanswer with ⟨-, hparse⟩ | ⟨e, hfails, -⟩
  · exact hparse
  · obtain ⟨hrest, hcallers⟩ := hfinished
    cases hfails <;> cases hrest
    cases hcallers

end Parse

end StyledMarkup
