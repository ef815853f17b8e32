import StyledMarkup.Proofs.Builder.Ordinary
import StyledMarkup.Proofs.Statement.Lines
import StyledMarkup.Proofs.Stylesheet

/-!
# Feeding again what is shown

A node has a line in the stylesheet if neither it nor any block around it is left out. At every
point of a feed, the statements of these nodes can be fed by themselves to an empty builder: each of
them meets the same innermost block, so it is taken for the same kind of statement, opens a block if
it did so before, and lands at the same depth. What was left out is not missed, because a block that
is left out inside a shown one is closed before the shown one goes on.
-/

namespace StyledMarkup

/-! ## Rows -/

def Document.kind? (doc : Document) (i : NodeId) : Option NodeKind :=
  (doc.get? i).map Node.kind

/-- The depth and the text of a node. -/
def Document.row (doc : Document) (j : NodeId) : Nat × Text :=
  (doc.depth j, ((doc.get? j).map Node.raw).getD [])

namespace Stylesheet

/-- The rows of the nodes that have a line. -/
def rows (doc : Document) : List (Nat × Text) :=
  (shown doc).map doc.row

section Graft

variable {doc : Document} (h : doc.Linked) {parent : Option NodeId}
  (hparent : ∀ p, parent = some p → p < doc.size) (s : Statement) (kind : NodeKind)
  (suppressed expanded : Bool)
include h hparent

theorem depth_graft {j : NodeId} (hj : j < doc.size) :
    (doc.graft parent s kind suppressed expanded).depth j = doc.depth j := by
  have hgraft := h.graft hparent s kind suppressed expanded
  induction j using Nat.strongRecOn with
  | ind j ih =>
    have hsame : (doc.graft parent s kind suppressed expanded).parent? j = doc.parent? j := by
      rw [Document.parent?_graft _ _ _ _ _ hparent, if_neg hj.ne]
    cases hp : doc.parent? j with
    | none => rw [Document.depth_of_root hp, Document.depth_of_root (hsame.trans hp)]
    | some p =>
      have hlt := h.parent_lt hp
      rw [h.coherent.depth_of_parent hp, hgraft.coherent.depth_of_parent (hsame.trans hp),
        ih p hlt (hlt.trans hj)]

theorem isShown_graft {j : NodeId} (hj : j < doc.size) :
    isShown (doc.graft parent s kind suppressed expanded) j = isShown doc j := by
  have hgraft := h.graft hparent s kind suppressed expanded
  induction j using Nat.strongRecOn with
  | ind j ih =>
    have hsame : (doc.graft parent s kind suppressed expanded).parent? j = doc.parent? j := by
      rw [Document.parent?_graft _ _ _ _ _ hparent, if_neg hj.ne]
    have hhidden : (doc.graft parent s kind suppressed expanded).has isHidden j =
        doc.has isHidden j := by
      rw [Document.has_graft _ _ _ _ _ (fun n id asAttribute ↦ ?_) hparent, if_neg hj.ne]
      cases asAttribute <;> rfl
    cases hp : doc.parent? j with
    | none => rw [isShown_of_root hp, isShown_of_root (hsame.trans hp), hhidden]
    | some p =>
      have hlt := h.parent_lt hp
      rw [isShown_of_parent h hp, isShown_of_parent hgraft (hsame.trans hp), hhidden,
        ih p hlt (hlt.trans hj)]

theorem isShown_graft_size :
    isShown (doc.graft parent s kind suppressed expanded) doc.size =
      (!isHidden (doc.leaf parent s kind suppressed expanded) && parent.all (isShown doc)) := by
  have hgraft := h.graft hparent s kind suppressed expanded
  have hnew : (doc.graft parent s kind suppressed expanded).parent? doc.size = parent := by
    rw [Document.parent?_graft _ _ _ _ _ hparent, if_pos rfl]
  have hhidden : (doc.graft parent s kind suppressed expanded).has isHidden doc.size =
      isHidden (doc.leaf parent s kind suppressed expanded) := by
    rw [Document.has_graft _ _ _ _ _ (fun n id asAttribute ↦ ?_) hparent, if_pos rfl]
    cases asAttribute <;> rfl
  cases parent with
  | none => rw [isShown_of_root hnew, hhidden, Option.all_none, Bool.and_true]
  | some p =>
    rw [isShown_of_parent hgraft hnew, hhidden, isShown_graft h hparent _ _ _ _ (hparent p rfl),
      Option.all_some]

theorem rows_graft :
    rows (doc.graft parent s kind suppressed expanded) =
      rows doc ++ if isShown (doc.graft parent s kind suppressed expanded) doc.size then
        [((doc.graft parent s kind suppressed expanded).depth doc.size, s.text)] else [] := by
  have hold : ∀ j ∈ List.range doc.size,
      isShown (doc.graft parent s kind suppressed expanded) j = isShown doc j :=
    fun j hj ↦ isShown_graft h hparent s kind suppressed expanded (List.mem_range.mp hj)
  have hraw : ∀ j, (((doc.graft parent s kind suppressed expanded).get? j).map Node.raw) =
      if j = doc.size then some s.text else (doc.get? j).map Node.raw := by
    intro j
    rw [Document.map_get?_graft _ _ _ _ _ (fun n id asAttribute ↦ ?_) hparent]
    · rfl
    · cases asAttribute <;> rfl
  have hrow : ∀ j ∈ shown doc, (doc.graft parent s kind suppressed expanded).row j = doc.row j := by
    intro j hj
    have hlt : j < doc.size := by
      simp only [shown, List.mem_filter, List.mem_range] at hj
      exact hj.1
    rw [Document.row, Document.row, depth_graft h hparent _ _ _ _ hlt, hraw, if_neg hlt.ne]
  have hshown : shown (doc.graft parent s kind suppressed expanded) =
      shown doc ++ if isShown (doc.graft parent s kind suppressed expanded) doc.size then
        [doc.size] else [] := by
    rw [shown, Document.size_graft, List.range_succ, List.filter_append,
      List.filter_congr hold]
    cases hnew : isShown (doc.graft parent s kind suppressed expanded) doc.size <;>
      simp [hnew, shown]
  rw [rows, hshown, List.map_append, List.map_congr_left hrow, ← rows]
  congr 1
  split
  · simp [Document.row, hraw]
  · rfl

end Graft

end Stylesheet

/-! ## The blocks around a statement -/

namespace Builder

open Stylesheet

/-- Each open block stands in the next one. -/
def Chained (b : Builder) : Prop :=
  ∀ id outer, id :: outer <:+ b.scopes → b.doc.parent? id = outer.head?

theorem chained_empty : ({} : Builder).Chained := by
  intro id outer hsuffix
  simp at hsuffix

namespace Chained

variable {b : Builder} (h : b.Chained)
include h

theorem grow (hlt : ∀ i ∈ b.scopes, i < b.doc.size) {b' : Builder} {s : Statement} {kind : NodeKind}
    {suppressed expanded : Bool}
    (hdoc : b'.doc = b.doc.graft b.scopes.head? s kind suppressed expanded)
    (hscopes : b'.scopes <:+ b.doc.size :: b.scopes) : b'.Chained := by
  have hparent : ∀ p, b.scopes.head? = some p → p < b.doc.size :=
    fun p hp ↦ hlt p (List.mem_of_head? hp)
  intro id outer hsuffix
  rw [hdoc, Document.parent?_graft _ _ _ _ _ hparent]
  rcases List.suffix_cons_iff.mp (hsuffix.trans hscopes) with heq | hsuffix
  · obtain ⟨rfl, rfl⟩ := List.cons.inj heq
    rw [if_pos rfl]
  · have hid := hlt id (hsuffix.subset List.mem_cons_self)
    rw [if_neg hid.ne]
    exact h id outer hsuffix

variable (hlinked : b.doc.Linked)
include hlinked

theorem depth_eq {id : NodeId} {outer : List NodeId} (hsuffix : id :: outer <:+ b.scopes) :
    b.doc.depth id = outer.length := by
  induction outer generalizing id with
  | nil => exact Document.depth_of_root (h id [] hsuffix)
  | cons p outer ih =>
    have hp := h id (p :: outer) hsuffix
    rw [hlinked.coherent.depth_of_parent hp, ih ((List.suffix_cons id _).trans hsuffix),
      List.length_cons]

/-- The blocks around a shown one are shown. -/
theorem isShown_of_head {id : NodeId} {outer : List NodeId} (hsuffix : id :: outer <:+ b.scopes)
    (hid : isShown b.doc id = true) : ∀ i ∈ id :: outer, isShown b.doc i = true := by
  induction outer generalizing id with
  | nil => simpa using hid
  | cons p outer ih =>
    have hp := h id (p :: outer) hsuffix
    rw [isShown_of_parent hlinked hp, Bool.and_eq_true] at hid
    rw [List.forall_mem_cons]
    refine ⟨?_, ih ((List.suffix_cons id _).trans hsuffix) hid.2⟩
    rw [isShown_of_parent hlinked hp, hid.1, hid.2]
    rfl

theorem filter_isShown (hhead : b.scopes.head?.all (isShown b.doc) = true) :
    b.scopes.filter (isShown b.doc) = b.scopes := by
  cases hscopes : b.scopes with
  | nil => rfl
  | cons id outer =>
    rw [List.filter_eq_self]
    exact h.isShown_of_head hlinked (hscopes ▸ List.suffix_refl _) (by simpa [hscopes] using hhead)

theorem depth_graft_size (hlt : ∀ i ∈ b.scopes, i < b.doc.size) (s : Statement) (kind : NodeKind)
    (suppressed expanded : Bool) :
    (b.doc.graft b.scopes.head? s kind suppressed expanded).depth b.doc.size =
      b.scopes.length := by
  have hparent : ∀ p, b.scopes.head? = some p → p < b.doc.size :=
    fun p hp ↦ hlt p (List.mem_of_head? hp)
  have hgraft := hlinked.graft hparent s kind suppressed expanded
  have hnew : (b.doc.graft b.scopes.head? s kind suppressed expanded).parent? b.doc.size =
      b.scopes.head? := by
    rw [Document.parent?_graft _ _ _ _ _ hparent, if_pos rfl]
  cases hscopes : b.scopes with
  | nil =>
    rw [hscopes] at hnew
    exact Document.depth_of_root hnew
  | cons id outer =>
    have hid := depth_graft hlinked hparent s kind suppressed expanded
      (hparent id (by simp [hscopes]))
    have hself : id :: outer <:+ b.scopes := by rw [hscopes]
    have hdepth := h.depth_eq hlinked hself
    rw [hscopes] at hgraft hnew hid
    rw [hgraft.coherent.depth_of_parent hnew, List.length_cons, hid, hdepth]

end Chained

theorem scope_eq_of_kinds {b small : Builder}
    (h : small.scopes.map small.doc.kind? = b.scopes.map b.doc.kind?) : small.scope = b.scope := by
  unfold scope
  cases hb : b.scopes with
  | nil =>
    rw [hb, List.map_nil, List.map_eq_nil_iff] at h
    rw [h]
  | cons i outer =>
    rw [hb] at h
    obtain ⟨j, outer', hsmall, hkind, -⟩ := List.map_eq_cons_iff.mp h
    rw [hsmall]
    unfold Document.kind? at hkind
    simp only [hkind]

/-! ## One statement -/

/-- The open blocks after a statement that opens or closes one. -/
def rescoped (s : Statement) (new : NodeId) (scopes : List NodeId) : List NodeId :=
  if s.opens then new :: scopes else if s.closes then scopes.tail else scopes

theorem rescoped_isSuffix (s : Statement) (new : NodeId) (scopes : List NodeId) :
    rescoped s new scopes <:+ new :: scopes := by
  unfold rescoped
  split
  · exact List.suffix_refl _
  · split
    · exact (List.tail_suffix _).trans (List.suffix_cons _ _)
    · exact List.suffix_cons _ _

theorem map_rescoped {α : Type*} {f g : NodeId → α} {new new' : NodeId}
    {scopes scopes' : List NodeId} (h : (new :: scopes).map f = (new' :: scopes').map g)
    (s : Statement) : (rescoped s new scopes).map f = (rescoped s new' scopes').map g := by
  have htail : scopes.map f = scopes'.map g := by simpa using congrArg List.tail h
  unfold rescoped
  split
  · exact h
  · split
    · rw [List.map_tail, List.map_tail, htail]
    · exact htail

section Plain

variable (b : Builder) (s : Statement) (expanded : Bool)

theorem scopes_plain :
    (b.plain s expanded).scopes = rescoped s b.doc.size b.scopes := by
  unfold plain rescoped
  split
  · rfl
  · split
    · exact closeBlock_scopes _
    · rfl

end Plain

/-- What a statement does to the lines of the stylesheet: it leaves no node, or one that is left
out, or one that depends on nothing but the innermost block. -/
inductive Shows (b : Builder) (s : Statement) (expanded : Bool) (b' : Builder) : Prop
  | same (hdoc : b'.doc = b.doc) (hscopes : b'.scopes = b.scopes)
  | hidden (kind : NodeKind) (suppressed : Bool)
    (hdoc : b'.doc = b.doc.graft b.scopes.head? s kind suppressed expanded)
    (hhidden : isHidden (b.doc.leaf b.scopes.head? s kind suppressed expanded) = true)
    (hscopes : b'.scopes = b.scopes ∨ b'.scopes = b.doc.size :: b.scopes)
  | shown (hs : s.IsOrdinary) (hcomment : s.isComment = false)
    (hdoc : b'.doc = b.doc.graft b.scopes.head? s
      (b.scope.classify s.text).toKind.awaitValue false expanded)
    (hhidden : isHidden (b.doc.leaf b.scopes.head? s
      (b.scope.classify s.text).toKind.awaitValue false expanded) = false)
    (hscopes : b'.scopes = rescoped s b.doc.size b.scopes)
    (hcloses : s.closes = true → b.scopes ≠ [])

theorem isHidden_leaf_of_closes {s : Statement} (hs : s.closes = true) (doc : Document)
    (parent : Option NodeId) (scope : Scope) (expanded : Bool) :
    isHidden (doc.leaf parent s (scope.classify s.text).toKind.awaitValue false expanded) =
      false := by
  have htext : s.text = ['}'] := by simpa [Statement.closes] using hs
  have hmarker : Classification.isTextMarker ['}'] = false := by decide
  rw [htext, Scope.classify_closing]
  simp [isHidden, Document.leaf, htext, hmarker, Node.isAttribute, Classification.toKind,
    NodeKind.awaitValue]

theorem ordinary_of_roleOf {b : Builder} {s : Statement}
    (h : b.roleOf s = .opener ∨ b.roleOf s = .closer ∨ b.roleOf s = .plain) :
    s.isComment = false ∧ s.IsOrdinary := by
  unfold roleOf at h
  cases hcomment : s.isComment with
  | true => simp [hcomment] at h
  | false =>
    refine ⟨rfl, ?_, ?_, ?_⟩
    all_goals
      apply Bool.eq_false_iff.mpr
      intro hdirective
      simp only [hcomment, hdirective] at h
      grind

theorem Taken.shows {settings : Settings} {ctx : Context} {b : Builder} {s : Statement} {r : Step}
    (h : Taken settings ctx b s (b.roleOf s) r) (hb : b.Attentive) :
    Shows b s ctx.isExpanding r.builder := by
  generalize hrole : b.roleOf s = role at h
  cases h with
  | comment => exact .same rfl rfl
  | piece a hopen hclose =>
    obtain ⟨value, isEvent, hclassify⟩ := hb a hopen s.text
    refine .hidden _ false (doc_continueValue b a s _) ?_ (Or.inl (scopes_continueValue b a s _))
    rw [hclassify]
    simp [isHidden, Node.isAttribute, Document.leaf, Classification.toKind]
  | importFile => exact .same rfl rfl
  | mixin header => exact .hidden _ true rfl rfl (Or.inr rfl)
  | unknown => exact .hidden _ true rfl rfl (Or.inl rfl)
  | expand => exact .hidden _ true rfl rfl (Or.inl rfl)
  | plain _ hopen hopens hcloses hcases hfloor =>
    have hdirect := ordinary_of_roleOf (b := b) (s := s) (by rwa [hrole])
    cases hhidden : isHidden (b.doc.leaf b.scopes.head? s
        (b.scope.classify s.text).toKind.awaitValue false ctx.isExpanding) with
    | false =>
      refine .shown hdirect.2 hdirect.1 (doc_plain b s _) hhidden (scopes_plain b s _) ?_
      rintro hclose hnil
      have := hfloor hclose
      simp [hnil] at this
    | true =>
      have hclose : s.closes = false := by
        apply Bool.eq_false_iff.mpr
        intro hclose
        simp [isHidden_leaf_of_closes hclose] at hhidden
      refine .hidden _ false (doc_plain b s _) hhidden ?_
      rw [Step.builder, scopes_plain, rescoped, hclose]
      cases s.opens
      · exact Or.inl rfl
      · exact Or.inr rfl

/-! ## The echo -/

/-- The statements of the shown nodes have been fed to `small`. It has the same rows, and its open
blocks are the shown ones among those of `b`. -/
structure Echo (b small : Builder) : Prop where
  fed : ({} : Builder).takeAll (Statement.ofLines ((rows b.doc).map Prod.snd)) = some small
  ordinary : ∀ t ∈ (rows b.doc).map Prod.snd, ∀ line,
    (⟨t, line⟩ : Statement).IsOrdinary ∧ (⟨t, line⟩ : Statement).isComment = false
  rows_eq : rows small.doc = rows b.doc
  name_eq : small.openName = none
  kinds_eq : small.scopes.map small.doc.kind? =
    (b.scopes.filter (isShown b.doc)).map b.doc.kind?
  scopes_shown : ∀ i ∈ small.scopes, isShown small.doc i = true
  chained : b.Chained
  small_chained : small.Chained

theorem echo_empty : Echo {} {} where
  fed := rfl
  ordinary := by simp [rows, shown, Document.size]
  rows_eq := rfl
  name_eq := rfl
  kinds_eq := rfl
  scopes_shown := by simp
  chained := chained_empty
  small_chained := chained_empty

theorem kind?_graft {doc : Document} {parent : Option NodeId}
    (hparent : ∀ p, parent = some p → p < doc.size) (s : Statement) (kind : NodeKind)
    (suppressed expanded : Bool) (j : NodeId) :
    (doc.graft parent s kind suppressed expanded).kind? j =
      if j = doc.size then some kind else doc.kind? j := by
  rw [Document.kind?, Document.map_get?_graft _ _ _ _ _ (fun n id asAttribute ↦ ?_) hparent]
  · rfl
  · cases asAttribute <;> rfl

namespace Echo

variable {b b' small : Builder} (h : Echo b small)
include h

theorem housed : small.Housed :=
  housed_empty.takeAll h.fed

theorem congr (hdoc : b'.doc = b.doc) (hscopes : b'.scopes = b.scopes) : Echo b' small where
  fed := hdoc ▸ h.fed
  ordinary := hdoc ▸ h.ordinary
  rows_eq := hdoc ▸ h.rows_eq
  name_eq := h.name_eq
  kinds_eq := by rw [hdoc, hscopes, h.kinds_eq]
  scopes_shown := h.scopes_shown
  chained := by
    unfold Chained
    rw [hdoc, hscopes]
    exact h.chained
  small_chained := h.small_chained

variable (hlinked : b.doc.Linked) (hlt : ∀ i ∈ b.scopes, i < b.doc.size) {s : Statement}
  {kind : NodeKind} {suppressed expanded : Bool}
  (hdoc : b'.doc = b.doc.graft b.scopes.head? s kind suppressed expanded)
include hlinked hlt hdoc

/-- A statement that is left out, or stands in a block that is. -/
theorem unseen (hnew : isShown b'.doc b.doc.size = false)
    (hscopes : b'.scopes <:+ b.doc.size :: b.scopes)
    (hfilter : b'.scopes.filter (isShown b'.doc) = b.scopes.filter (isShown b.doc)) :
    Echo b' small := by
  have hparent : ∀ p, b.scopes.head? = some p → p < b.doc.size :=
    fun p hp ↦ hlt p (List.mem_of_head? hp)
  have hrows : rows b'.doc = rows b.doc := by
    rw [hdoc] at hnew ⊢
    rw [rows_graft hlinked hparent, if_neg (by simp [hnew]), List.append_nil]
  refine ⟨hrows ▸ h.fed, hrows ▸ h.ordinary, h.rows_eq.trans hrows.symm, h.name_eq, ?_,
    h.scopes_shown, h.chained.grow hlt hdoc hscopes, h.small_chained⟩
  rw [hfilter, h.kinds_eq]
  apply List.map_congr_left
  intro i hi
  rw [hdoc, kind?_graft hparent, if_neg (hlt i (List.mem_filter.mp hi).1).ne]

end Echo

theorem isShown_of_head? {b : Builder} (h : ∀ i ∈ b.scopes, isShown b.doc i = true) :
    b.scopes.head?.all (isShown b.doc) = true := by
  cases hscopes : b.scopes with
  | nil => rfl
  | cons i outer => exact h i (by simp [hscopes])

/-- A shown node below shown blocks adds its row. -/
theorem Chained.seen {b b' : Builder} (h : b.Chained) (hlinked : b.doc.Linked)
    (hlt : ∀ i ∈ b.scopes, i < b.doc.size) {s : Statement} {kind : NodeKind}
    {suppressed expanded : Bool}
    (hdoc : b'.doc = b.doc.graft b.scopes.head? s kind suppressed expanded)
    (hhidden : isHidden (b.doc.leaf b.scopes.head? s kind suppressed expanded) = false)
    (hall : ∀ i ∈ b.scopes, isShown b.doc i = true) :
    rows b'.doc = rows b.doc ++ [(b.scopes.length, s.text)] ∧
      ∀ i ∈ b.doc.size :: b.scopes, isShown b'.doc i = true := by
  have hparent : ∀ p, b.scopes.head? = some p → p < b.doc.size :=
    fun p hp ↦ hlt p (List.mem_of_head? hp)
  have hnew : isShown b'.doc b.doc.size = true := by
    rw [hdoc, isShown_graft_size hlinked hparent, hhidden, isShown_of_head? hall]
    rfl
  constructor
  · rw [hdoc] at hnew ⊢
    rw [rows_graft hlinked hparent, if_pos hnew, h.depth_graft_size hlinked hlt]
  · rw [List.forall_mem_cons]
    refine ⟨hnew, fun i hi ↦ ?_⟩
    rw [hdoc, isShown_graft hlinked hparent _ _ _ _ (hlt i hi)]
    exact hall i hi

theorem kinds_cons {b b' : Builder} (hlt : ∀ i ∈ b.scopes, i < b.doc.size) {s : Statement}
    {kind : NodeKind} {suppressed expanded : Bool}
    (hdoc : b'.doc = b.doc.graft b.scopes.head? s kind suppressed expanded) :
    (b.doc.size :: b.scopes).map b'.doc.kind? = some kind :: b.scopes.map b.doc.kind? := by
  have hparent : ∀ p, b.scopes.head? = some p → p < b.doc.size :=
    fun p hp ↦ hlt p (List.mem_of_head? hp)
  rw [List.map_cons, hdoc, kind?_graft hparent, if_pos rfl]
  congr 1
  apply List.map_congr_left
  intro i hi
  rw [kind?_graft hparent, if_neg (hlt i hi).ne]

theorem nextName_of_shown {doc : Document} {parent : Option NodeId} {s s' : Statement}
    {kind : NodeKind} {suppressed expanded : Bool}
    (h : isHidden (doc.leaf parent s kind suppressed expanded) = false) :
    nextName none kind s' = none := by
  simp only [nextName]
  split
  · simp [isHidden, Document.leaf, Node.isAttribute] at h
  · rfl

theorem not_refuses {b : Builder} {s : Statement} (hname : b.openName = none)
    (hcloses : s.closes = true → b.scopes ≠ []) : b.refuses s = false := by
  cases hcase : s.closes with
  | false => simp [refuses, hcase]
  | true => simp [refuses, hname, hcloses hcase]

/-- A statement that is shown in a shown block. -/
theorem Echo.seen {b b' small : Builder} (h : Echo b small) (hlinked : b.doc.Linked)
    (hlt : ∀ i ∈ b.scopes, i < b.doc.size) {s : Statement} {expanded : Bool} (hs : s.IsOrdinary)
    (hcomment : s.isComment = false)
    (hdoc : b'.doc = b.doc.graft b.scopes.head? s
      (b.scope.classify s.text).toKind.awaitValue false expanded)
    (hhidden : isHidden (b.doc.leaf b.scopes.head? s
      (b.scope.classify s.text).toKind.awaitValue false expanded) = false)
    (hscopes : b'.scopes = rescoped s b.doc.size b.scopes)
    (hcloses : s.closes = true → b.scopes ≠ [])
    (hall : ∀ i ∈ b.scopes, isShown b.doc i = true) : ∃ small', Echo b' small' := by
  have hkinds := h.kinds_eq
  rw [List.filter_eq_self.mpr hall] at hkinds
  have hlength : small.scopes.length = b.scopes.length := by
    simpa using congrArg List.length hkinds
  have hhoused := h.housed
  have hlt' : ∀ i ∈ small.scopes, i < small.doc.size := fun i hi ↦ hhoused.lt_size hi
  generalize hk : (b.scope.classify s.text).toKind.awaitValue = kind at hdoc hhidden
  -- the same text on its line of the stylesheet
  obtain ⟨s', hs'⟩ : ∃ s' : Statement, s' = ⟨s.text, (rows b.doc).length + 1⟩ := ⟨_, rfl⟩
  have htext : s'.text = s.text := by rw [hs']
  have hcomment' : s'.isComment = false := by simpa [Statement.isComment, htext] using hcomment
  have hkind : small.kindOf s' = kind := by
    simp only [kindOf, h.name_eq, scope_eq_of_kinds hkinds, htext, hk]
  have hdoc' := doc_takeIn small hcomment'
  rw [hkind] at hdoc'
  have hscopes' : (small.takeIn s').scopes = rescoped s small.doc.size small.scopes := by
    simp [scopes_takeIn small hcomment', h.name_eq, rescoped, Statement.opens, Statement.closes,
      htext]
  obtain ⟨hrows, hshown⟩ := h.chained.seen hlinked hlt hdoc hhidden hall
  obtain ⟨hrows', hshown'⟩ := h.small_chained.seen hhoused.linked hlt' hdoc'
    (by simpa [isHidden, Document.leaf, Node.isAttribute, htext] using hhidden) h.scopes_shown
  have hsuffix := hscopes ▸ rescoped_isSuffix s b.doc.size b.scopes
  have hsuffix' := hscopes' ▸ rescoped_isSuffix s small.doc.size small.scopes
  refine ⟨small.takeIn s', ?_, ?_, ?_, ?_, ?_, fun i hi ↦ hshown' i (hsuffix'.subset hi),
    h.chained.grow hlt hdoc hsuffix, h.small_chained.grow hlt' hdoc' hsuffix'⟩
  · have hlines : Statement.ofLines ((rows b'.doc).map Prod.snd) =
        Statement.ofLines ((rows b.doc).map Prod.snd) ++ [s'] := by
      simp [hrows, Statement.ofLines, List.zipIdx_append, hs', Nat.add_comm]
    have hrefuses : small.refuses s' = false := by
      refine not_refuses h.name_eq fun hclose hnil ↦ hcloses ?_ ?_
      · rwa [Statement.closes, htext] at hclose
      · rwa [← List.length_eq_zero_iff, ← hlength, List.length_eq_zero_iff]
    rw [hlines, takeAll_append, h.fed, Option.bind_some, takeAll_cons hrefuses, takeAll]
  · rw [hrows, List.map_append, List.forall_mem_append]
    refine ⟨h.ordinary, ?_⟩
    simp only [List.map_cons, List.map_nil, List.mem_singleton, forall_eq]
    exact fun line ↦ ⟨hs.of_text rfl, hcomment⟩
  · rw [hrows', hrows, h.rows_eq, hlength, htext]
  · rw [openName_takeIn small hcomment', h.name_eq, hkind]
    exact nextName_of_shown hhidden
  · rw [List.filter_eq_self.mpr fun i hi ↦ hshown i (hsuffix.subset hi), hscopes', hscopes]
    apply map_rescoped
    rw [kinds_cons hlt' hdoc', kinds_cons hlt hdoc, hkinds]

theorem Echo.step {b b' small : Builder} (h : Echo b small) (hb : b.Sound) {s : Statement}
    {expanded : Bool} (hshows : Shows b s expanded b') : ∃ small', Echo b' small' := by
  have hlinked := hb.doc_sound.linked
  have hlt := hb.scopes_lt
  have hparent := hb.head?_lt
  have hfilter : ∀ {kind suppressed},
      b'.doc = b.doc.graft b.scopes.head? s kind suppressed expanded →
      ∀ l, l <:+ b.scopes → l.filter (isShown b'.doc) = l.filter (isShown b.doc) := by
    intro kind suppressed hdoc l hl
    apply List.filter_congr
    intro i hi
    rw [hdoc, isShown_graft hlinked hparent _ _ _ _ (hlt i (hl.subset hi))]
  cases hshows with
  | same hdoc hscopes => exact ⟨small, h.congr hdoc hscopes⟩
  | hidden kind suppressed hdoc hhidden hscopes =>
    have hnew : isShown b'.doc b.doc.size = false := by
      rw [hdoc, isShown_graft_size hlinked hparent, hhidden]
      rfl
    refine ⟨small, h.unseen hlinked hlt hdoc hnew ?_ ?_⟩
    · rcases hscopes with hscopes | hscopes <;> simp [hscopes]
    · rcases hscopes with hscopes | hscopes
      · rw [hscopes, hfilter hdoc _ (List.suffix_refl _)]
      · rw [hscopes, List.filter_cons_of_neg (by simp [hnew]), hfilter hdoc _ (List.suffix_refl _)]
  | shown hs hcomment hdoc hhidden hscopes hcloses =>
    cases hhead : b.scopes.head?.all (isShown b.doc) with
    | true =>
      have hall := List.filter_eq_self.mp (h.chained.filter_isShown hlinked hhead)
      exact h.seen hlinked hlt hs hcomment hdoc hhidden hscopes hcloses hall
    | false =>
      have hnew : isShown b'.doc b.doc.size = false := by
        rw [hdoc, isShown_graft_size hlinked hparent, hhead, Bool.and_false]
      refine ⟨small, h.unseen hlinked hlt hdoc hnew (hscopes ▸ rescoped_isSuffix _ _ _) ?_⟩
      obtain ⟨id, outer, hcons⟩ := List.exists_cons_of_ne_nil (l := b.scopes) (by
        rintro hnil
        simp [hnil] at hhead)
      have hid : isShown b.doc id = false := by simpa [hcons] using hhead
      have hrest : outer.filter (isShown b.doc) = b.scopes.filter (isShown b.doc) := by
        rw [hcons, List.filter_cons_of_neg (by simp [hid])]
      rw [hscopes, rescoped]
      split
      · rw [List.filter_cons_of_neg (by simp [hnew]), hfilter hdoc _ (List.suffix_refl _)]
      · split
        · rw [hfilter hdoc _ (List.tail_suffix _), hcons, List.tail_cons, hrest, hcons]
        · exact hfilter hdoc _ (List.suffix_refl _)

/-! ## Whole feeds -/

section Feed

variable {settings : Settings} {ctx : Context}

theorem exists_echo_of_feed {b' : Builder} {statements : List Statement}
    (hs : ∀ s ∈ statements, s.IsShaped) (h : ({} : Builder).feed settings ctx statements = .ok b') :
    b'.Sound ∧ ∃ small, Echo b' small := by
  refine feed_keeps (I := fun b ↦ b.Sound ∧ ∃ small, Echo b small) (P := Statement.IsShaped) ?_
    ⟨sound_empty, {}, echo_empty⟩ hs h
  rintro ctx b s r ⟨hb, small, hecho⟩ hs hstep
  refine ⟨⟨hb.step hs hstep, hecho.step hb ((taken_of_step hstep).shows hb.attentive)⟩, ?_⟩
  rintro inner b' body rfl
  exact isShaped_of_nested hstep

end Feed

end Builder

/-- The statements with a line in the stylesheet, fed by themselves, give the same rows again. -/
theorem Document.exists_echo {settings : Settings} {base : Path} {source : Text} {doc : Document}
    (h : Document.parse settings base source = .ok doc) :
    ∃ small : Builder,
      ({} : Builder).takeAll (Statement.ofLines ((Stylesheet.rows doc).map Prod.snd)) = some small ∧
      small.openName = none ∧ small.scopes = [] ∧
      Stylesheet.rows small.doc = Stylesheet.rows doc ∧
      ∀ t ∈ (Stylesheet.rows doc).map Prod.snd, ∀ line,
        (⟨t, line⟩ : Statement).IsOrdinary ∧ (⟨t, line⟩ : Statement).isComment = false := by
  rw [Document.parse] at h
  split at h
  · cases h
  · next statements hscan =>
    rw [Document.ofStatements] at h
    split at h
    · cases h
    · next b hfeed =>
      obtain ⟨hb, small, hecho⟩ :=
        Builder.exists_echo_of_feed (Statement.isShaped_of_scan hscan) hfeed
      obtain ⟨rfl, hscopes⟩ := hb.finish_eq_ok h
      refine ⟨small, hecho.fed, hecho.name_eq, ?_, hecho.rows_eq, hecho.ordinary⟩
      have hkinds := hecho.kinds_eq
      simpa [hscopes] using hkinds

end StyledMarkup
