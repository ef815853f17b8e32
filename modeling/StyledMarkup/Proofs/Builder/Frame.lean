import Mathlib
import StyledMarkup.Proofs.Builder.Feed

/-!
# What a nested feed leaves alone

A nested feed works on the same builder as the feed around it. It may open and close blocks, define
mixins and ask for further feeds, but all of that happens above the blocks that were open when it
began: these stay at the bottom of the stack, and no node gets a place below them except in the
innermost one. Main statement: when an import or an include has been taken in, the builder is what
it was, except that the innermost open block, or the list of roots if no block is open, may have new
entries at its end, and that mixins may have been added after those known before.
-/

namespace StyledMarkup

/-! ## Documents that have grown in one place -/

namespace Document

/-- All that was in the document is still there. New entries stand at the end of the lists of the
node `place`, or at the end of the roots if there is no such node. -/
structure GrownAt (place : Option NodeId) (doc doc' : Document) : Prop where
  roots_eq : ∃ roots, doc'.roots = doc.roots ++ roots ∧ (place ≠ none → roots = [])
  get?_eq : ∀ {i n}, doc.get? i = some n → ∃ attrs children,
    doc'.get? i = some { n with attrs := n.attrs ++ attrs, children := n.children ++ children } ∧
      (place ≠ some i → attrs = [] ∧ children = [])

namespace GrownAt

variable {place parent : Option NodeId} {doc doc' : Document}

theorem refl (place : Option NodeId) (doc : Document) : GrownAt place doc doc where
  roots_eq := ⟨[], by simp⟩
  get?_eq := fun hn ↦ ⟨[], [], by simpa using hn⟩

theorem size_le (h : GrownAt place doc doc') : doc.size ≤ doc'.size := by
  by_contra hlt
  obtain ⟨n, hn⟩ := exists_get? (Nat.lt_of_not_le hlt)
  obtain ⟨attrs, children, hn', -⟩ := h.get?_eq hn
  exact Nat.lt_irrefl _ (lt_size_of_get? hn')

/-- A node that is new, or that stands in the one place, may get further entries. -/
theorem graft (h : GrownAt place doc doc') (hparent : ∀ p, parent = some p → p < doc'.size)
    (hplace : parent = place ∨ ∃ p, parent = some p ∧ doc.size ≤ p) (s : Statement)
    (kind : NodeKind) (suppressed expanded : Bool) :
    GrownAt place doc (doc'.graft parent s kind suppressed expanded) where
  roots_eq := by
    obtain ⟨roots, hroots, hnil⟩ := h.roots_eq
    rw [roots_graft, hroots]
    rcases hplace with rfl | ⟨p, rfl, -⟩
    · cases parent with
      | none => exact ⟨roots ++ [doc'.size], by simp⟩
      | some p => exact ⟨roots, rfl, hnil⟩
    · exact ⟨roots, rfl, hnil⟩
  get?_eq := by
    intro i n hn
    obtain ⟨attrs, children, hn', hnil⟩ := h.get?_eq hn
    have hi : i < doc.size := lt_size_of_get? hn
    rw [get?_graft doc' s kind suppressed expanded hparent,
      if_neg (Nat.ne_of_lt (Nat.lt_of_lt_of_le hi h.size_le)), hn', Option.map_some]
    by_cases hchild : parent = some i
    · have heq : place = some i := by
        rcases hplace with rfl | ⟨p, hp, hle⟩
        · exact hchild
        · obtain rfl := Option.some.inj (hp.symm.trans hchild)
          exact absurd hi (Nat.not_lt_of_le hle)
      rw [if_pos hchild, Node.adopt]
      split
      · exact ⟨attrs ++ [doc'.size], children, by simp, fun hne ↦ absurd heq hne⟩
      · exact ⟨attrs, children ++ [doc'.size], by simp, fun hne ↦ absurd heq hne⟩
    · rw [if_neg hchild]
      exact ⟨attrs, children, rfl, hnil⟩

end GrownAt

end Document

theorem Registry.isPrefix_register (r : Registry) (m : Mixin) :
    r.mixins <+: (r.register m).mixins := by
  unfold register register?
  split
  · exact List.prefix_rfl
  · exact List.prefix_append _ _

namespace Builder

theorem isPrefix_closeBlock (b : Builder) : b.mixins.mixins <+: b.closeBlock.mixins.mixins := by
  rw [closeBlock_mixins]
  split
  · exact Registry.isPrefix_register _ _
  · exact List.prefix_rfl

/-! ## Above the open blocks -/

/-- The builder works above the blocks that were open at an earlier point: all blocks opened since
then are new nodes, and new nodes are below these or in the block that was the innermost. -/
structure Above (b₀ b : Builder) : Prop where
  scopes_eq : ∃ own, b.scopes = own ++ b₀.scopes ∧ ∀ i ∈ own, b₀.doc.size ≤ i
  grown : b₀.doc.GrownAt b₀.scopes.head? b.doc
  mixins_le : b₀.mixins.mixins <+: b.mixins.mixins

namespace Above

variable {settings : Settings} {ctx : Context} {b₀ b b' : Builder} {s : Statement} {expanded : Bool}
  {role : Role}

theorem refl (b : Builder) : b.Above b :=
  ⟨⟨[], by simp⟩, .refl _ _, List.prefix_rfl⟩

theorem length_le (h : b₀.Above b) : b₀.scopes.length ≤ b.scopes.length := by
  obtain ⟨own, hown, -⟩ := h.scopes_eq
  simp [hown]

theorem head?_cases (h : b₀.Above b) :
    b.scopes.head? = b₀.scopes.head? ∨ ∃ i, b.scopes.head? = some i ∧ b₀.doc.size ≤ i := by
  obtain ⟨own, hown, hnew⟩ := h.scopes_eq
  cases own with
  | nil => exact Or.inl (by simp [hown])
  | cons i own => exact Or.inr ⟨i, by simp [hown], hnew i List.mem_cons_self⟩

/-- A statement keeps the builder above the old blocks, as long as it closes none of them. -/
theorem intake (h : b₀.Above b) (hlt : ∀ i ∈ b.scopes, i < b.doc.size)
    (hintake : Intake b s expanded role b')
    (hfloor : role.closes = true → b₀.scopes.length < b.scopes.length) : b₀.Above b' where
  scopes_eq := by
    obtain ⟨own, hown, hnew⟩ := h.scopes_eq
    rw [hintake.scopes_eq]
    split
    · refine ⟨b.doc.size :: own, by rw [hown, List.cons_append], ?_⟩
      exact List.forall_mem_cons.mpr ⟨h.grown.size_le, hnew⟩
    · split
      · next hcloses =>
        cases own with
        | nil => exact absurd (hfloor hcloses) (by simp [hown])
        | cons i own =>
          exact ⟨own, by rw [hown]; rfl, fun j hj ↦ hnew j (List.mem_cons_of_mem i hj)⟩
      · exact ⟨own, hown, hnew⟩
  grown := by
    rcases hintake.doc_cases with ⟨-, hdoc⟩ | ⟨-, kind, suppressed, hdoc, -⟩
    · rw [hdoc]
      exact h.grown
    · rw [hdoc]
      exact h.grown.graft (fun p hp ↦ hlt p (List.mem_of_head? hp)) h.head?_cases ..
  mixins_le := by
    rw [hintake.mixins_eq hlt]
    split
    · exact h.mixins_le.trans b.isPrefix_closeBlock
    · exact h.mixins_le

/-- A feed whose floor is not below the old blocks stays above them, and so do the feeds that it
asks for. -/
theorem feed {statements : List Statement} (h : b₀.Above b) (hb : b.Sound)
    (hfloor : b₀.scopes.length ≤ ctx.floor) (hs : ∀ s ∈ statements, s.IsShaped)
    (hfeed : b.feed settings ctx statements = .ok b') : b₀.Above b' := by
  refine (feed_keeps_within (C := fun ctx ↦ b₀.scopes.length ≤ ctx.floor)
    (I := fun b ↦ b.Sound ∧ b₀.Above b) (P := Statement.IsShaped) ?_ hfloor ⟨hb, h⟩ hs hfeed).2
  rintro ctx b s r hfloor ⟨hb, h⟩ hs hstep
  have htaken := taken_of_step hstep
  refine ⟨⟨hb.step hs hstep, ?_⟩, ?_⟩
  · refine h.intake hb.scopes_lt (htaken.intake hs hb.attentive) fun hcloses ↦ ?_
    exact Nat.lt_of_le_of_lt hfloor (htaken.floor_lt hcloses)
  · rintro inner b' body rfl
    exact ⟨(nested_cases hstep).1 ▸ h.length_le, isShaped_of_nested hstep⟩

end Above

/-! ## Imports and includes -/

/-- Nothing of the builder has changed, except that the innermost open block, or the list of roots
if no block is open, may have new entries at its end, and that mixins may have been added. -/
structure Framed (b b' : Builder) : Prop where
  scopes_eq : b'.scopes = b.scopes
  openAttribute_eq : b'.openAttribute = b.openAttribute
  grown : b.doc.GrownAt b.scopes.head? b'.doc
  mixins_le : b.mixins.mixins <+: b'.mixins.mixins

theorem Above.framed {b b' : Builder} (h : b.Above b')
    (hlength : b'.scopes.length = b.scopes.length)
    (hopen : b'.openAttribute = b.openAttribute) : b.Framed b' := by
  obtain ⟨own, hown, -⟩ := h.scopes_eq
  have hnil : own = [] := by
    apply List.length_eq_zero_iff.mp
    rw [hown, List.length_append] at hlength
    omega
  exact ⟨by rw [hown, hnil, List.nil_append], hopen, h.grown, h.mixins_le⟩

theorem openAttribute_of_directive {b : Builder} {s : Statement}
    (h : b.roleOf s = .importFile ∨ b.roleOf s = .includeMixin) : b.openAttribute = none := by
  by_contra hopen
  have hsome := Option.isSome_iff_ne_none.mpr hopen
  cases hcomment : s.isComment <;> simp [roleOf, hcomment, hsome] at h

theorem Taken.directive_eq {settings : Settings} {ctx : Context} {b : Builder} {s : Statement}
    {role : Role} {r : Step} (h : Taken settings ctx b s role r)
    (hrole : role = .importFile ∨ role = .includeMixin) :
    r.builder.scopes = b.scopes ∧ r.builder.openAttribute = b.openAttribute := by
  cases h with
  | importFile | unknown | expand => exact ⟨rfl, rfl⟩
  | comment | piece | mixin => simp at hrole
  | plain role _ _ _ hplain => rcases hrole with rfl | rfl <;> simp at hplain

end Builder

section Directive

variable {settings : Settings} {b after : Builder} {ctx : Context} {s : Statement}
  {rest : List Statement} {callers : List Caller} {log : List Fed}

theorem Moment.Sound.framed (h : Moment.Sound settings ⟨b, ctx, s :: rest, callers, log⟩)
    (hrole : b.roleOf s = .importFile ∨ b.roleOf s = .includeMixin)
    (hfeed : b.feed settings ctx [s] = .ok after) : b.Framed after := by
  have hb := h.builder_sound
  have hs := h.rest_shaped s List.mem_cons_self
  obtain ⟨r, hstep, hr⟩ := Builder.feed_singleton hfeed
  have htaken := Builder.taken_of_step hstep
  have hcloses : (b.roleOf s).closes ≠ true := by
    rcases hrole with hrole | hrole <;> simp [hrole, Role.closes]
  have habove : b.Above r.builder := (Builder.Above.refl b).intake hb.scopes_lt
    (htaken.intake hs hb.attentive) fun hclose ↦ absurd hclose hcloses
  rcases hr with ⟨rfl, -⟩ | ⟨inner, b₁, body, rfl, hbody, hsettle⟩
  · obtain ⟨hscopes, hopen⟩ := htaken.directive_eq hrole
    exact habove.framed (by rw [hscopes]) hopen
  · have hfloor := (Builder.nested_cases hstep).1
    obtain ⟨-, hnone, hlength⟩ := Builder.settle_eq_ok hsettle
    have hafter := habove.feed (hb.step hs hstep) (Nat.le_of_eq hfloor.symm)
      (Builder.isShaped_of_nested hstep) hbody
    exact hafter.framed (hlength.trans hfloor)
      (hnone.trans (Builder.openAttribute_of_directive hrole).symm)

/-- A run goes on after a statement in the feed that took it in. -/
theorem Moment.Sound.exists_run_of_singleton
    (h : Moment.Sound settings ⟨b, ctx, s :: rest, callers, log⟩)
    (hfeed : b.feed settings ctx [s] = .ok after) :
    ∃ log', Runs settings ⟨b, ctx, s :: rest, callers, log⟩ ⟨after, ctx, rest, callers, log'⟩ := by
  obtain ⟨r, hstep, hr⟩ := Builder.feed_singleton hfeed
  rcases hr with ⟨rfl, hlarge⟩ | ⟨inner, b₁, body, rfl, hbody, hsettle⟩
  · cases r with
    | next b' => exact ⟨_, .single (.next hstep)⟩
    | nested inner b' body =>
      obtain ⟨rfl, hsettle⟩ := h.nested_trivial hstep (hlarge inner b' body rfl)
      exact ⟨_, (Relation.ReflTransGen.single (.nested hstep)).tail (.settle hsettle)⟩
  · obtain ⟨⟨b₂, ctx₂, rest₂, callers₂, log₂⟩, hruns, hm⟩ :=
      exists_run_of_feed _ _ inner b₁ body (h.moves (.nested hstep))
    rw [hbody] at hm
    obtain ⟨rfl, rfl, rfl, rfl⟩ := hm
    exact ⟨_, (hruns.head (.nested hstep)).tail (.settle hsettle)⟩

end Directive

/-- An import or an include that is taken in changes nothing but the end of the innermost open
block and the end of the registry, and the run goes on in the same feed, inside the same imports and
expansions. A statement is taken for either only while no attribute is open. -/
theorem Reachable.framed_of_directive {settings : Settings} {base : Path} {source : Text}
    {m : Moment} (hm : Reachable settings base source m) {s : Statement} {rest : List Statement}
    (hrest : m.rest = s :: rest)
    (hrole : m.builder.roleOf s = .importFile ∨ m.builder.roleOf s = .includeMixin)
    {after : Builder} (hfeed : m.builder.feed settings m.ctx [s] = .ok after) :
    m.builder.Framed after ∧
      ∃ log, Runs settings m ⟨after, m.ctx, rest, m.callers, log⟩ := by
  have hsound := hm.sound
  obtain ⟨b, ctx, _, callers, log⟩ := m
  obtain rfl := hrest
  exact ⟨hsound.framed hrole hfeed, hsound.exists_run_of_singleton hfeed⟩

theorem Reachable.framed_of_directive_import :
    ∃ m after, Reachable
        ⟨(Library.ofList
          [(⟨"a".toList⟩, "@mixin n() \x7b\n\x7d\np \x7b\n--id: b;\n\x7d".toList)]).load, 32⟩ ⟨[]⟩
        "div \x7b\n@import 'a';\n\x7d".toList m ∧
      m.builder.scopes = [0] ∧
      m.builder.feed
        ⟨(Library.ofList
          [(⟨"a".toList⟩, "@mixin n() \x7b\n\x7d\np \x7b\n--id: b;\n\x7d".toList)]).load, 32⟩ m.ctx
        [⟨"@import 'a';".toList, 2⟩] = .ok after ∧
      after.doc.size = 6 ∧ after.mixins.names = ["n".toList] ∧ m.builder.Framed after := by
  have hscan : Statement.scan "div \x7b\n@import 'a';\n\x7d".toList =
      .ok [⟨"div \x7b".toList, 1⟩, ⟨"@import 'a';".toList, 2⟩, ⟨"\x7d".toList, 3⟩] := by
    cbv
  obtain ⟨m, after, hm, hrest, hscopes, hrole, hfeed, hsize, hnames⟩ : ∃ m after, Reachable
        ⟨(Library.ofList
          [(⟨"a".toList⟩, "@mixin n() \x7b\n\x7d\np \x7b\n--id: b;\n\x7d".toList)]).load, 32⟩ ⟨[]⟩
        "div \x7b\n@import 'a';\n\x7d".toList m ∧
      m.rest = [⟨"@import 'a';".toList, 2⟩, ⟨"\x7d".toList, 3⟩] ∧ m.builder.scopes = [0] ∧
      m.builder.roleOf ⟨"@import 'a';".toList, 2⟩ = .importFile ∧
      m.builder.feed
        ⟨(Library.ofList
          [(⟨"a".toList⟩, "@mixin n() \x7b\n\x7d\np \x7b\n--id: b;\n\x7d".toList)]).load, 32⟩ m.ctx
        [⟨"@import 'a';".toList, 2⟩] = .ok after ∧
      after.doc.size = 6 ∧ after.mixins.names = ["n".toList] := by
    exact ⟨_, _, ⟨_, hscan, .single (.next rfl)⟩, rfl, rfl, rfl,
      (Builder.feed_nested rfl (by decide) ((Builder.feed_next rfl).trans
        ((Builder.feed_next rfl).trans ((Builder.feed_next rfl).trans ((Builder.feed_next rfl).trans
          ((Builder.feed_next rfl).trans Builder.feed_nil))))) rfl).trans Builder.feed_nil,
      rfl, rfl⟩
  exact ⟨m, after, hm, hscopes, hfeed, hsize, hnames,
    (Reachable.framed_of_directive hm hrest (Or.inl hrole) hfeed).1⟩

end StyledMarkup
