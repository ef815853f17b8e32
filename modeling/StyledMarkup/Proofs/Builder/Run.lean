import Mathlib.Logic.Relation
import StyledMarkup.Proofs.Builder.Forest

/-!
# Runs

A run takes in one statement after another and enters and leaves nested feeds, so that it can be
looked at after any number of moves. `Moment` is one point of a run. It remembers what has been fed
so far, which is what statements about the course of a run refer to.

`Moment.Sound` is what holds at every point. The open blocks are split among the feeds under way:
each feed has opened those above its floor, and they are nodes of an expansion exactly if the feed
is one. A mixin that is registered inside an expansion and was not there when it began is therefore
a node of the expansion, with nothing but nodes of the expansion below it, so its body is empty.
-/

namespace StyledMarkup

/-- A statement that has been fed. -/
structure Fed where
  statement : Statement
  role : Role
  /-- An include was being expanded. -/
  expanded : Bool
  deriving DecidableEq, Repr

/-- A feed that waits for a nested one to end. -/
structure Caller where
  ctx : Context
  /-- The statement that asked for the nested feed. -/
  directive : Statement
  rest : List Statement

/-- A point of a run: the builder, the innermost feed with the statements it still has, the feeds
around it, the innermost first, and all that has been fed. -/
structure Moment where
  builder : Builder
  ctx : Context
  rest : List Statement
  callers : List Caller := []
  log : List Fed := []

namespace Moment

def start (base : Path) (statements : List Statement) : Moment where
  builder := {}
  ctx := { base }
  rest := statements

def contexts (m : Moment) : List Context :=
  m.ctx :: m.callers.map Caller.ctx

def IsFinished (m : Moment) : Prop :=
  m.rest = [] ∧ m.callers = []

end Moment

inductive Moves (settings : Settings) : Moment → Moment → Prop
  | next {b b' : Builder} {ctx : Context} {s : Statement} {rest : List Statement}
    {callers : List Caller} {log : List Fed} (h : b.step settings ctx s = .ok (.next b')) :
    Moves settings ⟨b, ctx, s :: rest, callers, log⟩
      ⟨b', ctx, rest, callers, log ++ [⟨s, b.roleOf s, ctx.isExpanding⟩]⟩
  | nested {b b' : Builder} {ctx inner : Context} {s : Statement} {rest body : List Statement}
    {callers : List Caller} {log : List Fed}
    (h : b.step settings ctx s = .ok (.nested inner b' body)) :
    Moves settings ⟨b, ctx, s :: rest, callers, log⟩
      ⟨b', inner, body, ⟨ctx, s, rest⟩ :: callers, log ++ [⟨s, b.roleOf s, ctx.isExpanding⟩]⟩
  | settle {b b' : Builder} {ctx : Context} {caller : Caller} {callers : List Caller}
    {log : List Fed} (h : b.settle ctx caller.directive = .ok b') :
    Moves settings ⟨b, ctx, [], caller :: callers, log⟩ ⟨b', caller.ctx, caller.rest, callers, log⟩

/-- A run that stops with an error. -/
inductive Fails (settings : Settings) : Moment → ParseError → Prop
  | statement {b : Builder} {ctx : Context} {s : Statement} {rest : List Statement}
    {callers : List Caller} {log : List Fed} {e : ParseError}
    (h : b.step settings ctx s = .error e) :
    Fails settings ⟨b, ctx, s :: rest, callers, log⟩ e
  | settle {b : Builder} {ctx : Context} {caller : Caller} {callers : List Caller} {log : List Fed}
    {e : ParseError} (h : b.settle ctx caller.directive = .error e) :
    Fails settings ⟨b, ctx, [], caller :: callers, log⟩ e

abbrev Runs (settings : Settings) : Moment → Moment → Prop :=
  Relation.ReflTransGen (Moves settings)

/-- A point of the run on a source. -/
def Reachable (settings : Settings) (base : Path) (source : Text) (m : Moment) : Prop :=
  ∃ statements, Statement.scan source = .ok statements ∧
    Runs settings (Moment.start base statements) m

section Course

variable {settings : Settings} {base : Path} {source : Text} {m m₁ m₂ : Moment} {e : ParseError}

theorem Reachable.runs (h : Reachable settings base source m) (hruns : Runs settings m m₁) :
    Reachable settings base source m₁ := by
  obtain ⟨statements, hscan, hstart⟩ := h
  exact ⟨statements, hscan, hstart.trans hruns⟩

theorem Moves.unique (h₁ : Moves settings m m₁) (h₂ : Moves settings m m₂) : m₁ = m₂ := by
  cases h₁ with
  | next h =>
    cases h₂ with
    | next h' =>
      rw [h] at h'
      cases h'
      rfl
    | nested h' =>
      rw [h] at h'
      cases h'
  | nested h =>
    cases h₂ with
    | next h' =>
      rw [h] at h'
      cases h'
    | nested h' =>
      rw [h] at h'
      cases h'
      rfl
  | settle h =>
    cases h₂ with
    | settle h' =>
      rw [h] at h'
      cases h'
      rfl

theorem Fails.not_moves (h : Fails settings m e) (m' : Moment) : ¬Moves settings m m' := by
  intro hmoves
  cases h with
  | statement h => cases hmoves <;> simp_all
  | settle h => cases hmoves; simp_all

theorem Moment.IsFinished.not_moves (h : m.IsFinished) (m' : Moment) : ¬Moves settings m m' := by
  intro hmoves
  obtain ⟨hrest, hcallers⟩ := h
  cases hmoves <;> cases hrest
  cases hcallers

theorem Fails.unique {e₁ e₂ : ParseError} (h₁ : Fails settings m e₁) (h₂ : Fails settings m e₂) :
    e₁ = e₂ := by
  cases h₁ with
  | statement h =>
    cases h₂ with
    | statement h' => exact Except.error.inj (h.symm.trans h')
  | settle h =>
    cases h₂ with
    | settle h' => exact Except.error.inj (h.symm.trans h')

theorem Runs.eq_of_not_moves (h : Runs settings m m₁) (hlast : ∀ m', ¬Moves settings m m') :
    m₁ = m := by
  rcases Relation.ReflTransGen.cases_head h with heq | ⟨m', hmove, -⟩
  · exact heq.symm
  · exact absurd hmove (hlast m')

/-- A run passes through each of its points before it comes to a standstill. -/
theorem Runs.to_standstill (h₁ : Runs settings m m₁) (h₂ : Runs settings m m₂)
    (hlast : ∀ m', ¬Moves settings m₂ m') : Runs settings m₁ m₂ := by
  have hunique : Relator.RightUnique (Moves settings) := fun _ _ _ h h' ↦ h.unique h'
  rcases Relation.ReflTransGen.total_of_right_unique hunique h₁ h₂ with h | h
  · exact h
  · rw [Runs.eq_of_not_moves h hlast]

/-- A run that comes to a standstill has no infinite course. -/
theorem Runs.acc {m' : Moment} (h : Runs settings m m') (hlast : ∀ m₁, ¬Moves settings m' m₁) :
    Acc (fun after before ↦ Moves settings before after) m := by
  induction h using Relation.ReflTransGen.head_induction_on with
  | refl => exact Acc.intro _ fun m₁ hmove ↦ absurd hmove (hlast m₁)
  | head hmove _ ih =>
    refine Acc.intro _ fun m₁ hmove₁ ↦ ?_
    rw [Moves.unique hmove₁ hmove]
    exact ih

end Course

theorem Builder.settle_eq_ok {b b' : Builder} {ctx : Context} {s : Statement}
    (h : b.settle ctx s = .ok b') :
    b' = b ∧ b.openAttribute = none ∧ b.scopes.length = ctx.floor := by
  unfold Builder.settle at h
  split at h
  · cases h
  · next hopen =>
    split at h
    · next hfloor => exact ⟨(Except.ok.inj h).symm, hopen, hfloor⟩
    · cases h

/-! ## Contexts -/

structure Context.Sound (settings : Settings) (ctx : Context) : Prop where
  imports_nodup : ctx.imports.Nodup
  imports_le : ctx.imports.length ≤ settings.maxImportDepth
  active_nodup : ctx.active.Nodup
  active_ne_nil : ctx.isExpanding = true → ctx.active ≠ []

namespace Context

theorem sound_base (settings : Settings) (base : Path) : ({ base } : Context).Sound settings where
  imports_nodup := List.nodup_nil
  imports_le := Nat.zero_le _
  active_nodup := List.nodup_nil
  active_ne_nil := by simp [isExpanding]

theorem Sound.enterImport {settings : Settings} {ctx : Context} (h : ctx.Sound settings)
    {path : Path} (hdepth : ctx.imports.length < settings.maxImportDepth)
    (hcycle : path ∉ ctx.imports) (floor : Nat) : (ctx.enterImport path floor).Sound settings where
  imports_nodup := List.nodup_cons.mpr ⟨hcycle, h.imports_nodup⟩
  imports_le := hdepth
  active_nodup := h.active_nodup
  active_ne_nil := h.active_ne_nil

@[simp] theorem active_enterMixin (ctx : Context) (mixins : Registry) (name : Text) (floor : Nat) :
    (ctx.enterMixin mixins name floor).active = name :: ctx.active := by
  unfold enterMixin active
  split <;> simp_all

@[simp] theorem isExpanding_enterMixin (ctx : Context) (mixins : Registry) (name : Text)
    (floor : Nat) : (ctx.enterMixin mixins name floor).isExpanding = true := by
  unfold enterMixin
  split <;> rfl

@[simp] theorem imports_enterMixin (ctx : Context) (mixins : Registry) (name : Text) (floor : Nat) :
    (ctx.enterMixin mixins name floor).imports = ctx.imports := by
  unfold enterMixin
  split <;> rfl

@[simp] theorem floor_enterMixin (ctx : Context) (mixins : Registry) (name : Text) (floor : Nat) :
    (ctx.enterMixin mixins name floor).floor = floor := by
  unfold enterMixin
  split <;> rfl

theorem Sound.enterMixin {settings : Settings} {ctx : Context} (h : ctx.Sound settings)
    {name : Text} (hactive : name ∉ ctx.active) (mixins : Registry) (floor : Nat) :
    (ctx.enterMixin mixins name floor).Sound settings := by
  refine ⟨?_, ?_, ?_, ?_⟩
  · rw [imports_enterMixin]
    exact h.imports_nodup
  · rw [imports_enterMixin]
    exact h.imports_le
  · rw [active_enterMixin]
    exact List.nodup_cons.mpr ⟨hactive, h.active_nodup⟩
  · simp

/-- The mixins that the context accounts for: those being expanded, those that may be expanded, and
those that are nodes of the expansion. -/
def Accounts (ctx : Context) (b : Builder) : Prop :=
  ctx.isExpanding = true → ∀ m ∈ b.mixins.mixins,
    m.name ∈ ctx.active ∨ m.name ∈ ctx.available ∨ b.doc.has Node.expanded m.node = true

theorem Accounts.enterImport {ctx : Context} {b : Builder} (h : ctx.Accounts b) (path : Path)
    (floor : Nat) : (ctx.enterImport path floor).Accounts b := h

theorem Accounts.enterMixin {ctx : Context} {b : Builder} (h : ctx.Accounts b) (name : Text)
    (floor : Nat) : (ctx.enterMixin b.mixins name floor).Accounts b := by
  intro _ m hm
  by_cases hname : m.name = name
  · simp [hname]
  · cases hexp : ctx.expansion with
    | none =>
      have hnames : m.name ∈ b.mixins.names := List.mem_map_of_mem hm
      simp [Context.enterMixin, hexp, available, (List.mem_erase_of_ne hname).mpr hnames]
    | some e =>
      have hold := h (by simp [isExpanding, hexp]) m hm
      simp only [active, available, hexp, Option.map_some, Option.getD_some] at hold
      simpa [Context.enterMixin, hexp, active, available, List.mem_erase_of_ne hname, hname]
        using hold

end Context

/-! ## The open blocks of each feed -/

/-- The open blocks belong to the feeds under way. -/
inductive Layered (doc : Document) : List Context → List NodeId → Prop
  | nil : Layered doc [] []
  | cons {ctx : Context} {outer : List Context} (own : List NodeId) {below : List NodeId}
    (hfloor : below.length = ctx.floor)
    (hown : ∀ i ∈ own, doc.has Node.expanded i = ctx.isExpanding)
    (hbelow : Layered doc outer below) : Layered doc (ctx :: outer) (own ++ below)

namespace Layered

variable {doc : Document} {ctx : Context} {outer : List Context} {scopes : List NodeId}

theorem congr {doc' : Document} {contexts : List Context} (h : Layered doc contexts scopes)
    (hdoc : ∀ i ∈ scopes, doc'.has Node.expanded i = doc.has Node.expanded i) :
    Layered doc' contexts scopes := by
  induction h with
  | nil => exact .nil
  | cons own hfloor hown _ ih =>
    refine .cons own hfloor (fun i hi ↦ ?_) (ih fun i hi ↦ hdoc i (List.mem_append_right own hi))
    rw [hdoc i (List.mem_append_left _ hi)]
    exact hown i hi

theorem enter {contexts : List Context} (h : Layered doc contexts scopes)
    (hfloor : ctx.floor = scopes.length) : Layered doc (ctx :: contexts) scopes :=
  .cons [] hfloor.symm (by simp) h

theorem leave {contexts : List Context} (h : Layered doc (ctx :: contexts) scopes)
    (hfloor : scopes.length = ctx.floor) : Layered doc contexts scopes := by
  cases h with
  | cons own hlength _ hbelow =>
    have hnil : own = [] := by
      apply List.length_eq_zero_iff.mp
      rw [List.length_append] at hfloor
      omega
    rw [hnil]
    exact hbelow

theorem push {id : NodeId} (h : Layered doc (ctx :: outer) scopes)
    (hid : doc.has Node.expanded id = ctx.isExpanding) :
    Layered doc (ctx :: outer) (id :: scopes) := by
  cases h with
  | cons own hfloor hown hbelow =>
    refine .cons (id :: own) hfloor ?_ hbelow
    simpa [hid] using hown

theorem pop {id : NodeId} (h : Layered doc (ctx :: outer) (id :: scopes))
    (hfloor : ctx.floor < (id :: scopes).length) :
    doc.has Node.expanded id = ctx.isExpanding ∧ Layered doc (ctx :: outer) scopes := by
  generalize hall : id :: scopes = all at h hfloor
  cases h with
  | cons own hlength hown hbelow =>
    cases own with
    | nil => simp [hlength] at hfloor
    | cons first own =>
      obtain ⟨rfl, rfl⟩ := List.cons.inj hall
      refine ⟨hown id (by simp), .cons own hlength (fun i hi ↦ ?_) hbelow⟩
      exact hown i (List.mem_cons_of_mem _ hi)

/-- An open block of an expansion can only be open while it is expanded. -/
theorem isExpanding_of_mem {contexts : List Context} (h : Layered doc contexts scopes)
    (hinner : ∀ ctx' ∈ contexts, ctx'.isExpanding = true → ctx.isExpanding = true) {i : NodeId}
    (hi : i ∈ scopes) (hexp : doc.has Node.expanded i = true) : ctx.isExpanding = true := by
  induction h with
  | nil => cases hi
  | cons own _ hown _ ih =>
    rcases List.mem_append.mp hi with hi | hi
    · exact hinner _ (by simp) ((hown i hi).symm.trans hexp)
    · exact ih (fun ctx' hctx' ↦ hinner ctx' (List.mem_cons_of_mem _ hctx')) hi

end Layered

/-! ## What holds at every point -/

theorem Registry.mem_register {r : Registry} {m m' : Mixin} (h : m ∈ (r.register m').mixins) :
    m ∈ r.mixins ∨ m = m' := by
  unfold Registry.register Registry.register? at h
  split at h
  · exact Or.inl h
  · simpa using h

namespace Builder

theorem mem_closeBlock {b : Builder} {m : Mixin} (h : m ∈ b.closeBlock.mixins.mixins) :
    m ∈ b.mixins.mixins ∨ b.scopes.head? = some m.node := by
  rw [closeBlock_mixins] at h
  split at h
  · next m' hm' =>
    refine (Registry.mem_register h).imp_right ?_
    rintro rfl
    obtain ⟨id, hid, hdef⟩ := Option.bind_eq_some_iff.mp hm'
    obtain ⟨n, -, hkind⟩ := Option.bind_eq_some_iff.mp hdef
    obtain ⟨header, -, rfl⟩ := Option.map_eq_some_iff.mp hkind
    exact hid
  · exact Or.inl h

theorem Taken.floor_lt {settings : Settings} {ctx : Context} {b : Builder} {s : Statement}
    {role : Role} {r : Step} (h : Taken settings ctx b s role r) (hcloses : role.closes = true) :
    ctx.floor < b.scopes.length := by
  cases h with
  | plain role hopen hopens hrole _ hfloor => exact hfloor (hrole.symm.trans hcloses)
  | _ => cases hcloses

/-- Nodes below a node of an expansion are nodes of that expansion. -/
def ExpandedBelow (b : Builder) : Prop :=
  ∀ i j, b.doc.parent? j = some i → b.doc.has Node.expanded i = true →
    b.doc.has Node.expanded j = true

theorem expanded_adopt (n : Node) (id : NodeId) (asAttribute : Bool) :
    (n.adopt id asAttribute).expanded = n.expanded := by
  cases asAttribute <;> rfl

section Step

variable {ctx : Context} {b b' : Builder} {s : Statement} {role : Role}
  (h : Intake b s ctx.isExpanding role b') (hb : b.Sound)
include h hb

theorem Intake.mixin_lt (hlt : ∀ m ∈ b.mixins.mixins, m.node < b.doc.size) :
    ∀ m ∈ b'.mixins.mixins, m.node < b'.doc.size := by
  intro m hm
  apply Nat.lt_of_lt_of_le _ h.size_le
  rw [h.mixins_eq hb.scopes_lt] at hm
  split at hm
  · rcases mem_closeBlock hm with hm | hhead
    · exact hlt m hm
    · exact hb.head?_lt _ hhead
  · exact hlt m hm

theorem Intake.layered {outer : List Context}
    (hlayered : Layered b.doc (ctx :: outer) b.scopes)
    (hfloor : role.closes = true → ctx.floor < b.scopes.length) :
    Layered b'.doc (ctx :: outer) b'.scopes := by
  have hold : Layered b'.doc (ctx :: outer) b.scopes :=
    hlayered.congr fun i hi ↦ h.has_eq hb.scopes_lt expanded_adopt (hb.scopes_lt i hi)
  rw [h.scopes_eq]
  split
  · next hopens =>
    apply hold.push
    rcases h.doc_cases with ⟨hadds, -⟩ | ⟨-, kind, suppressed, hdoc, -⟩
    · rw [Role.addsNode_of_opens hopens] at hadds
      cases hadds
    · rw [hdoc,
        Document.has_graft b.doc s kind suppressed ctx.isExpanding expanded_adopt hb.head?_lt,
        if_pos rfl]
      rfl
  · split
    · next hcloses =>
      have hlt := hfloor hcloses
      cases hscopes : b.scopes with
      | nil => simp [hscopes] at hlt
      | cons id scopes =>
        rw [hscopes] at hold hlt
        exact (hold.pop hlt).2
    · exact hold

theorem Intake.accounts {outer : List Context} (hlayered : Layered b.doc (ctx :: outer) b.scopes)
    (hfloor : role.closes = true → ctx.floor < b.scopes.length)
    (hlt : ∀ m ∈ b.mixins.mixins, m.node < b.doc.size) {ctx' : Context} (hacc : ctx'.Accounts b)
    (hinner : ctx'.isExpanding = true → ctx.isExpanding = true) : ctx'.Accounts b' := by
  intro hexp m hm
  have hold : m ∈ b.mixins.mixins → m.name ∈ ctx'.active ∨ m.name ∈ ctx'.available ∨
      b'.doc.has Node.expanded m.node = true := by
    intro hm
    rw [h.has_eq hb.scopes_lt expanded_adopt (hlt m hm)]
    exact hacc hexp m hm
  rw [h.mixins_eq hb.scopes_lt] at hm
  split at hm
  · next hcloses =>
    rcases mem_closeBlock hm with hm | hhead
    · exact hold hm
    · -- The mixin was opened by the innermost feed, inside every expansion that is under way.
      refine Or.inr (Or.inr ?_)
      obtain ⟨scopes, hscopes⟩ := List.head?_eq_some_iff.mp hhead
      have hfloor := hfloor hcloses
      rw [hscopes] at hlayered hfloor
      rw [h.has_eq hb.scopes_lt expanded_adopt (hb.head?_lt _ hhead), (hlayered.pop hfloor).1]
      exact hinner hexp
  · exact hold hm

theorem Intake.expandedBelow (hbelow : b.ExpandedBelow)
    (hhead : ∀ i ∈ b.scopes, b.doc.has Node.expanded i = true → ctx.isExpanding = true) :
    b'.ExpandedBelow := by
  rcases h.doc_cases with ⟨-, hdoc⟩ | ⟨-, kind, suppressed, hdoc, -⟩
  · unfold ExpandedBelow
    rw [hdoc]
    exact hbelow
  · intro i j hj hexp
    have hlinked := hb.doc_sound.linked.graft hb.head?_lt s kind suppressed ctx.isExpanding
    have hlt : i < b.doc.size := by
      rw [hdoc] at hj
      have hle := Document.lt_size_of_parent? hj
      rw [Document.size_graft] at hle
      exact Nat.lt_of_lt_of_le (hlinked.parent_lt hj) (Nat.le_of_lt_succ hle)
    rw [h.has_eq hb.scopes_lt expanded_adopt hlt] at hexp
    rw [hdoc, Document.parent?_graft b.doc s kind suppressed ctx.isExpanding hb.head?_lt] at hj
    rw [hdoc, Document.has_graft b.doc s kind suppressed ctx.isExpanding expanded_adopt hb.head?_lt]
    split at hj
    · next hjsize =>
      rw [if_pos hjsize]
      exact hhead i (List.mem_of_head? hj) hexp
    · next hjsize =>
      rw [if_neg hjsize]
      exact hbelow i j hj hexp

end Step

end Builder

namespace Moment

/-- What holds at every point of a run. -/
structure Sound (settings : Settings) (m : Moment) : Prop where
  builder_sound : m.builder.Sound
  rest_shaped : ∀ s ∈ m.rest, s.IsShaped
  callers_shaped : ∀ c ∈ m.callers, ∀ s ∈ c.rest, s.IsShaped
  contexts_sound : ∀ ctx ∈ m.contexts, ctx.Sound settings
  expanding : m.contexts.Pairwise fun inner outer ↦
    outer.isExpanding = true → inner.isExpanding = true
  layered : Layered m.builder.doc m.contexts m.builder.scopes
  expandedBelow : m.builder.ExpandedBelow
  mixin_lt : ∀ mixin ∈ m.builder.mixins.mixins, mixin.node < m.builder.doc.size
  accounts : ∀ ctx ∈ m.contexts, ctx.Accounts m.builder

section Preservation

variable {settings : Settings} {b b' : Builder} {ctx : Context} {s : Statement}
  {rest body : List Statement} {callers : List Caller} {log log' : List Fed}

theorem sound_start {base : Path} {statements : List Statement}
    (h : ∀ s ∈ statements, s.IsShaped) : (start base statements).Sound settings where
  builder_sound := Builder.sound_empty
  rest_shaped := h
  callers_shaped := by simp [start]
  contexts_sound := by simpa [start, contexts] using Context.sound_base settings base
  expanding := List.pairwise_singleton _ _
  layered := .cons [] rfl (by simp) .nil
  expandedBelow := by simp [Builder.ExpandedBelow, start, Document.parent?, Document.get?]
  mixin_lt := by simp [start]
  accounts := by simp [start, contexts, Context.Accounts]

theorem Sound.isExpanding_ctx {m : Moment} (h : m.Sound settings) {ctx : Context}
    (hctx : ctx ∈ m.contexts) (hexp : ctx.isExpanding = true) : m.ctx.isExpanding = true := by
  rcases List.mem_cons.mp hctx with rfl | hctx
  · exact hexp
  · exact (List.pairwise_cons.mp h.expanding).1 ctx hctx hexp

theorem Sound.take (h : Sound settings ⟨b, ctx, s :: rest, callers, log⟩) {r : Builder.Step}
    (hstep : b.step settings ctx s = .ok r) (log' : List Fed) :
    Sound settings ⟨r.builder, ctx, rest, callers, log'⟩ := by
  have hb := h.builder_sound
  have hs := h.rest_shaped s (by simp)
  have htaken := Builder.taken_of_step hstep
  have hintake := htaken.intake hs hb.attentive
  refine ⟨hb.intake hs hintake, fun t ht ↦ h.rest_shaped t (List.mem_cons_of_mem s ht),
    h.callers_shaped, h.contexts_sound, h.expanding, ?_, ?_, ?_, ?_⟩
  · exact hintake.layered hb h.layered htaken.floor_lt
  · apply hintake.expandedBelow hb h.expandedBelow
    exact fun i hi ↦ h.layered.isExpanding_of_mem (fun ctx' hctx' ↦ h.isExpanding_ctx hctx') hi
  · exact hintake.mixin_lt hb h.mixin_lt
  · intro ctx' hctx'
    exact hintake.accounts hb h.layered htaken.floor_lt h.mixin_lt (h.accounts ctx' hctx')
      (h.isExpanding_ctx hctx')

theorem Sound.enter (h : Sound settings ⟨b, ctx, rest, callers, log⟩) {inner : Context}
    (hbody : ∀ t ∈ body, t.IsShaped) (hsound : inner.Sound settings)
    (hexp : ctx.isExpanding = true → inner.isExpanding = true)
    (hfloor : inner.floor = b.scopes.length) (hacc : inner.Accounts b) :
    Sound settings ⟨b, inner, body, ⟨ctx, s, rest⟩ :: callers, log⟩ := by
  have hcontexts : contexts ⟨b, inner, body, ⟨ctx, s, rest⟩ :: callers, log⟩ =
      inner :: contexts ⟨b, ctx, rest, callers, log⟩ := rfl
  refine ⟨h.builder_sound, hbody, ?_, ?_, ?_, ?_, h.expandedBelow, h.mixin_lt, ?_⟩
  · simpa using ⟨h.rest_shaped, h.callers_shaped⟩
  · rw [hcontexts]
    simpa using ⟨hsound, h.contexts_sound⟩
  · rw [hcontexts]
    exact List.pairwise_cons.mpr ⟨fun ctx' hctx' hexp' ↦ hexp (h.isExpanding_ctx hctx' hexp'),
      h.expanding⟩
  · rw [hcontexts]
    exact h.layered.enter hfloor
  · rw [hcontexts]
    simpa using ⟨hacc, h.accounts⟩

theorem Sound.leave {caller : Caller} (h : Sound settings ⟨b, ctx, [], caller :: callers, log⟩)
    (hfloor : b.scopes.length = ctx.floor) :
    Sound settings ⟨b, caller.ctx, caller.rest, callers, log⟩ := by
  have hcontexts : contexts ⟨b, ctx, [], caller :: callers, log⟩ =
      ctx :: contexts ⟨b, caller.ctx, caller.rest, callers, log⟩ := rfl
  have hsub : ∀ ctx' ∈ contexts ⟨b, caller.ctx, caller.rest, callers, log⟩,
      ctx' ∈ contexts ⟨b, ctx, [], caller :: callers, log⟩ := by
    intro ctx' hctx'
    rw [hcontexts]
    exact List.mem_cons_of_mem ctx hctx'
  have hexpanding := h.expanding
  have hlayered := h.layered
  rw [hcontexts] at hexpanding hlayered
  refine ⟨h.builder_sound, ?_, ?_, fun ctx' hctx' ↦ h.contexts_sound ctx' (hsub ctx' hctx'),
    (List.pairwise_cons.mp hexpanding).2, hlayered.leave hfloor, h.expandedBelow, h.mixin_lt,
    fun ctx' hctx' ↦ h.accounts ctx' (hsub ctx' hctx')⟩
  · exact h.callers_shaped caller (by simp)
  · exact fun c hc ↦ h.callers_shaped c (List.mem_cons_of_mem caller hc)

theorem Sound.moves {m m' : Moment} (h : m.Sound settings) (hmoves : Moves settings m m') :
    m'.Sound settings := by
  cases hmoves with
  | next hstep => exact h.take hstep _
  | nested hstep =>
    have hctx := h.contexts_sound _ List.mem_cons_self
    have htake := h.take hstep
    have htaken := Builder.taken_of_step hstep
    generalize Builder.roleOf _ _ = role at htaken
    cases htaken with
    | importFile target path source body hopen htarget hpath hdepth hcycle hload hscan =>
      exact (htake _).enter (Statement.isShaped_of_scan hscan) (hctx.enterImport hdepth hcycle _) id
        rfl (((htake []).accounts _ List.mem_cons_self).enterImport _ _)
    | expand request mixin body hopen hrequest hfind hactive hscan =>
      exact (htake _).enter (Statement.isShaped_of_scanLines hscan) (hctx.enterMixin hactive _ _)
        (fun _ ↦ Context.isExpanding_enterMixin _ _ _ _) (Context.floor_enterMixin _ _ _ _)
        (((htake []).accounts _ List.mem_cons_self).enterMixin _ _)
  | settle hsettle =>
    obtain ⟨rfl, -, hfloor⟩ := Builder.settle_eq_ok hsettle
    exact h.leave hfloor

theorem Sound.runs {m m' : Moment} (h : m.Sound settings) (hruns : Runs settings m m') :
    m'.Sound settings := by
  induction hruns with
  | refl => exact h
  | tail _ hmoves ih => exact ih.moves hmoves

end Preservation

end Moment

theorem Reachable.sound {settings : Settings} {base : Path} {source : Text} {m : Moment}
    (h : Reachable settings base source m) : m.Sound settings := by
  obtain ⟨statements, hscan, hruns⟩ := h
  exact (Moment.sound_start (Statement.isShaped_of_scan hscan)).runs hruns

end StyledMarkup
