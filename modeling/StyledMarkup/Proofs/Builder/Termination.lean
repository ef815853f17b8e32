import StyledMarkup.Proofs.Builder.Feed

/-!
# Every run ends

A run comes to a standstill whatever the loader returns. On its way the imports under way are
distinct and no more than the settings allow, and the mixins being expanded are distinct. The
outermost include fixes how many mixins can be expanded inside one another: those that were
registered when it began, and one more, which then is a mixin of the expansion itself and has an
empty body.
-/

namespace StyledMarkup

theorem Context.active_ne_nil_iff {settings : Settings} {ctx : Context} (h : ctx.Sound settings) :
    ctx.active ≠ [] ↔ ctx.isExpanding = true := by
  refine ⟨fun hne ↦ ?_, h.active_ne_nil⟩
  by_contra hquiet
  have hnone : ctx.expansion = none := by simpa [isExpanding] using hquiet
  simp [active, hnone] at hne

/-- The mixins that can be inside one another in a context: those being expanded and those that may
still be. -/
def Context.reach (ctx : Context) : Nat :=
  ctx.active.length + ctx.available.length

/-- At most `limit` mixins are inside one another, and one more only where nothing is left to
feed. -/
structure Moment.Within (limit : Nat) (m : Moment) : Prop where
  callers : ∀ c ∈ m.callers, c.ctx.isExpanding = true → c.ctx.reach ≤ limit
  current : m.ctx.reach ≤ limit ∨ m.rest = [] ∧ m.ctx.reach ≤ limit + 1

theorem Moment.Within.active_le {limit : Nat} {m : Moment} (h : m.Within limit) :
    m.ctx.active.length ≤ limit + 1 := by
  have hreach : m.ctx.active.length ≤ m.ctx.reach := Nat.le_add_right _ _
  rcases h.current with hle | ⟨-, hle⟩ <;> omega

section Reach

variable {settings : Settings} {b b' : Builder} {ctx inner : Context} {s : Statement}
  {rest body : List Statement} {callers : List Caller} {log : List Fed}

theorem Moment.Within.reach_le {limit : Nat}
    (h : Moment.Within limit ⟨b, ctx, s :: rest, callers, log⟩) : ctx.reach ≤ limit := by
  rcases h.current with hle | ⟨hnil, -⟩
  · exact hle
  · cases hnil

/-- Inside an expansion, a nested feed can reach no further, unless it has nothing to feed. -/
theorem Moment.Sound.reach_nested (h : Moment.Sound settings ⟨b, ctx, s :: rest, callers, log⟩)
    (hstep : b.step settings ctx s = .ok (.nested inner b' body)) (hexp : ctx.isExpanding = true) :
    inner.reach ≤ ctx.reach ∨ body = [] ∧ inner.reach ≤ ctx.reach + 1 := by
  have htaken := Builder.taken_of_step hstep
  generalize Builder.roleOf _ _ = role at htaken
  cases htaken with
  | importFile => exact Or.inl (Nat.le_refl _)
  | expand request m body hopen hrequest hfind hactive hscan =>
    obtain ⟨e, he⟩ := Option.isSome_iff_exists.mp hexp
    have hreach : ctx.reach = e.active.length + e.available.length := by
      simp [Context.reach, Context.active, Context.available, he]
    have hinner : (ctx.enterMixin b.mixins request.name b.scopes.length).reach =
        e.active.length + 1 + (e.available.erase request.name).length := by
      simp [Context.reach, Context.active, Context.available, Context.enterMixin, he]
    by_cases havailable : request.name ∈ e.available
    · left
      have hlength := List.length_erase_of_mem havailable
      have hpos := List.length_pos_of_mem havailable
      omega
    · right
      have hlength := List.erase_of_not_mem havailable
      refine ⟨(h.nested_trivial hstep ?_).1, by rw [hinner, hreach, hlength]; omega⟩
      rintro (himports | ⟨-, houtside | ⟨-, hless⟩⟩)
      · simp [Builder.importsLeft] at himports
      · simp [Builder.outside, hexp] at houtside
      · simp [Context.available, Context.enterMixin, he, hlength] at hless

theorem reach_outermost (hstep : b.step settings ctx s = .ok (.nested inner b' body))
    (hquiet : ctx.isExpanding = false) (hexp : inner.isExpanding = true) :
    inner.reach = b.mixins.size := by
  have htaken := Builder.taken_of_step hstep
  generalize Builder.roleOf _ _ = role at htaken
  cases htaken with
  | importFile =>
    have hexp : ctx.isExpanding = true := hexp
    rw [hquiet] at hexp
    cases hexp
  | expand request m body hopen hrequest hfind hactive hscan =>
    have hnone : ctx.expansion = none := by simpa [Context.isExpanding] using hquiet
    have hname : m.name = request.name := by simpa using List.find?_some hfind
    have hmem : request.name ∈ b.mixins.names :=
      hname ▸ List.mem_map_of_mem (List.mem_of_find?_eq_some hfind)
    have hlength : b.mixins.names.length = b.mixins.size := List.length_map ..
    have hpos := List.length_pos_of_mem hmem
    simp only [Context.reach, Context.active, Context.available, Context.enterMixin, hnone,
      Option.map_some, Option.getD_some, List.length_singleton, List.length_erase_of_mem hmem]
    omega

end Reach

section Outermost

variable {settings : Settings} {m m' first : Moment}

theorem Moment.Within.moves {limit : Nat} (hsound : m.Sound settings) (h : m.Within limit)
    (hmoves : Moves settings m m') (hexp : m.ctx.isExpanding = true)
    (hexp' : m'.ctx.isExpanding = true) : m'.Within limit := by
  cases hmoves with
  | next hstep => exact ⟨h.callers, Or.inl h.reach_le⟩
  | nested hstep =>
    refine ⟨?_, ?_⟩
    · intro c hc hcexp
      rcases List.mem_cons.mp hc with rfl | hc
      · exact h.reach_le
      · exact h.callers c hc hcexp
    · rcases hsound.reach_nested hstep hexp with hle | ⟨hnil, hle⟩
      · exact Or.inl (Nat.le_trans hle h.reach_le)
      · exact Or.inr ⟨hnil, Nat.le_trans hle (Nat.succ_le_succ h.reach_le)⟩
  | settle hsettle =>
    refine ⟨fun c hc ↦ h.callers c (List.mem_cons_of_mem _ hc), Or.inl ?_⟩
    exact h.callers _ List.mem_cons_self hexp'

theorem Moment.Within.of_outermost (hsound : first.Sound settings) (hmoves : Moves settings first m)
    (hquiet : first.ctx.isExpanding = false) (hexp : m.ctx.isExpanding = true) :
    m.Within first.builder.mixins.size := by
  have hcallers : ∀ ctx ∈ first.contexts, ctx.isExpanding = false := by
    intro ctx hctx
    apply Bool.eq_false_iff.mpr
    intro hctxexp
    rw [hsound.isExpanding_ctx hctx hctxexp] at hquiet
    cases hquiet
  cases hmoves with
  | next hstep =>
    exact absurd (hquiet.symm.trans hexp) Bool.false_ne_true
  | nested hstep =>
    refine ⟨fun c hc hcexp ↦ ?_, Or.inl (Nat.le_of_eq (reach_outermost hstep hquiet hexp))⟩
    have hctx : c.ctx.isExpanding = false := by
      rcases List.mem_cons.mp hc with rfl | hc
      · exact hquiet
      · exact hcallers c.ctx (List.mem_cons_of_mem _ (List.mem_map_of_mem hc))
    rw [hctx] at hcexp
    cases hcexp
  | settle hsettle =>
    have hctx := hcallers _ (List.mem_cons_of_mem _ List.mem_cons_self)
    rw [hctx] at hexp
    cases hexp

/-- The outermost include that is under way at `m` began with the move from `first`: before it no
include was under way, and since then one has been all the time. -/
def OutermostFrom (settings : Settings) (first m : Moment) : Prop :=
  first.ctx.active = [] ∧ ∃ second, Moves settings first second ∧ second.ctx.active ≠ [] ∧
    Relation.ReflTransGen (fun x y ↦ Moves settings x y ∧ y.ctx.active ≠ []) second m

theorem OutermostFrom.active_le (hsound : first.Sound settings)
    (h : OutermostFrom settings first m) :
    m.ctx.active.length ≤ first.builder.mixins.size + 1 := by
  obtain ⟨hquiet, second, hfirst, hsecond, hpath⟩ := h
  have hexp : ∀ {x : Moment}, x.Sound settings → x.ctx.active ≠ [] → x.ctx.isExpanding = true :=
    fun hx ↦ (Context.active_ne_nil_iff (hx.contexts_sound _ List.mem_cons_self)).mp
  have hquiet' : first.ctx.isExpanding = false := by
    apply Bool.eq_false_iff.mpr
    intro hfirstexp
    exact (hsound.contexts_sound _ List.mem_cons_self).active_ne_nil hfirstexp hquiet
  -- Along the path: the point is sound, inside an include, and within the limit.
  have hall : m.Sound settings ∧ m.ctx.active ≠ [] ∧ m.Within first.builder.mixins.size := by
    induction hpath with
    | refl =>
      have hsound' := hsound.moves hfirst
      exact ⟨hsound', hsecond, .of_outermost hsound hfirst hquiet' (hexp hsound' hsecond)⟩
    | tail _ hmove ih =>
      obtain ⟨hx, hxactive, hxwithin⟩ := ih
      have hy := hx.moves hmove.1
      exact ⟨hy, hmove.2, hxwithin.moves hx hmove.1 (hexp hx hxactive) (hexp hy hmove.2)⟩
  exact hall.2.2.active_le

theorem exists_outermostFrom {start : Moment} (hstart : start.ctx.active = [])
    (h : Runs settings start m) (hactive : m.ctx.active ≠ []) :
    ∃ first, Runs settings start first ∧ OutermostFrom settings first m := by
  induction h with
  | refl => exact absurd hstart hactive
  | @tail x y hruns hmove ih =>
    by_cases hx : x.ctx.active = []
    · exact ⟨x, hruns, hx, y, hmove, hactive, .refl⟩
    · obtain ⟨first, hfirst, hquiet, second, hsecond, hsecactive, hpath⟩ := ih hx
      exact ⟨first, hfirst, hquiet, second, hsecond, hsecactive, hpath.tail ⟨hmove, hactive⟩⟩

end Outermost

/-- Every run on a source ends, with the answer that parsing gives, and it stays within its bounds
at every point. -/
theorem run_ends_within_bounds (settings : Settings) (base : Path) (source : Text) :
    (∀ statements, Statement.scan source = .ok statements →
      Acc (fun after before ↦ Moves settings before after) (Moment.start base statements) ∧
        ∃ last, Runs settings (Moment.start base statements) last ∧
          (last.IsFinished ∧ Document.parse settings base source = last.builder.finish ∨
            ∃ e, Fails settings last e ∧ Document.parse settings base source = .error e)) ∧
    ∀ m, Reachable settings base source m →
      m.ctx.imports.Nodup ∧ m.ctx.imports.length ≤ settings.maxImportDepth ∧
        m.ctx.active.Nodup ∧
        (∀ first, Reachable settings base source first → OutermostFrom settings first m →
          m.ctx.active.length ≤ first.builder.mixins.size + 1) ∧
        (m.ctx.active ≠ [] →
          ∃ first, Reachable settings base source first ∧ OutermostFrom settings first m) := by
  refine ⟨?_, ?_⟩
  · intro statements hscan
    obtain ⟨last, hruns, hlast⟩ := exists_standstill settings base hscan
    refine ⟨hruns.acc ?_, last, hruns, hlast⟩
    rcases hlast with ⟨hfinished, -⟩ | ⟨e, hfails, -⟩
    · exact hfinished.not_moves
    · exact hfails.not_moves
  · intro m hm
    have hctx := hm.sound.contexts_sound m.ctx List.mem_cons_self
    refine ⟨hctx.imports_nodup, hctx.imports_le, hctx.active_nodup, ?_, ?_⟩
    · exact fun first hfirst houtermost ↦ houtermost.active_le hfirst.sound
    · intro hactive
      obtain ⟨statements, hscan, hruns⟩ := hm
      obtain ⟨first, hfirst, houtermost⟩ := exists_outermostFrom rfl hruns hactive
      exact ⟨first, ⟨statements, hscan, hfirst⟩, houtermost⟩

end StyledMarkup
