import StyledMarkup.Proofs.Stylesheet

/-!
# Documents with nodes left out

Statements that open and close no block can be left out of a document: nothing stands below them, so
the other nodes keep their parents and their order and only move up in number. A document in which
such nodes are left out is called abridged. Growing by a node that stays leads from an abridged
document to an abridged one, and growing by a node that is left out does not touch it.

The outline of a tree keeps what the renderings read of its nodes, and leaves out the same nodes. A
document and its abridged version have the same outline.
-/

namespace StyledMarkup

/-- Statements to be left out, by their text and by what they are taken for. None of them opens or
closes a block. -/
structure Omission where
  omits : Text → NodeKind → Bool
  not_opens : ∀ {t kind}, omits t kind = true → Text.endsWith t '{' = false
  not_closes : ∀ {t kind}, omits t kind = true → t ≠ ['}']

def Omission.drops (o : Omission) (n : Node) : Bool :=
  o.omits n.raw n.kind

theorem Omission.drops_adopt (o : Omission) (n : Node) (id : NodeId) (asAttribute : Bool) :
    o.drops (n.adopt id asAttribute) = o.drops n := by
  cases asAttribute <;> rfl

/-- What the renderings read of a node by itself. -/
def Node.bare (n : Node) : Node :=
  { raw := n.raw, kind := n.kind, line := 0, suppressed := n.suppressed }

theorem Node.bare_adopt (n : Node) (id : NodeId) (asAttribute : Bool) :
    (n.adopt id asAttribute).bare = n.bare := by
  cases asAttribute <;> rfl

theorem Omission.drops_eq_of_bare (o : Omission) {n m : Node} (h : m.bare = n.bare) :
    o.drops m = o.drops n := by
  change o.drops m.bare = o.drops n.bare
  rw [h]

theorem Node.declaration?_eq_of_bare {n m : Node} (h : m.bare = n.bare) :
    m.declaration? = n.declaration? := by
  change m.bare.declaration? = n.bare.declaration?
  rw [h]

namespace Document

variable (o : Omission) (doc : Document)

/-! ## New numbers -/

def keeps (i : NodeId) : Bool :=
  !doc.has o.drops i

/-- The number of a node once those before it are left out. -/
def rank (i : NodeId) : NodeId :=
  (List.range i).countP (doc.keeps o)

/-- The nodes of a list that stay, under their new numbers. -/
def renumber (ids : List NodeId) : List NodeId :=
  (ids.filter (doc.keeps o)).map (doc.rank o)

variable {o doc}

theorem keeps_of_get? {i : NodeId} {n : Node} (hn : doc.get? i = some n) :
    doc.keeps o i = !o.drops n := by
  rw [keeps, has_of_get? hn]

theorem rank_succ (i : NodeId) :
    doc.rank o (i + 1) = doc.rank o i + if doc.keeps o i then 1 else 0 := by
  rw [rank, List.range_succ, List.countP_append, List.countP_singleton, rank]

theorem rank_mono {i j : NodeId} (h : i ≤ j) : doc.rank o i ≤ doc.rank o j :=
  (List.range_sublist.mpr h).countP_le

theorem rank_lt {i j : NodeId} (h : i < j) (hi : doc.keeps o i = true) :
    doc.rank o i < doc.rank o j := by
  have hle : doc.rank o (i + 1) ≤ doc.rank o j := rank_mono h
  rw [rank_succ, if_pos hi] at hle
  exact hle

theorem rank_inj {i j : NodeId} (hi : doc.keeps o i = true) (hj : doc.keeps o j = true) :
    doc.rank o i = doc.rank o j ↔ i = j := by
  refine ⟨fun h ↦ ?_, congrArg _⟩
  rcases Nat.lt_trichotomy i j with hlt | heq | hlt
  · exact absurd h (Nat.ne_of_lt (rank_lt hlt hi))
  · exact heq
  · exact absurd h.symm (Nat.ne_of_lt (rank_lt hlt hj))

theorem renumber_append (front back : List NodeId) :
    doc.renumber o (front ++ back) = doc.renumber o front ++ doc.renumber o back := by
  rw [renumber, List.filter_append, List.map_append, renumber, renumber]

theorem renumber_singleton (i : NodeId) :
    doc.renumber o [i] = if doc.keeps o i then [doc.rank o i] else [] := by
  rw [renumber, List.filter_singleton]
  cases doc.keeps o i <;> rfl

section Graft

variable {parent : Option NodeId} (hparent : ∀ p, parent = some p → p < doc.size) (s : Statement)
  (kind : NodeKind) (suppressed expanded : Bool)
include hparent

theorem keeps_graft (j : NodeId) :
    (doc.graft parent s kind suppressed expanded).keeps o j =
      if j = doc.size then !o.omits s.text kind else doc.keeps o j := by
  rw [keeps, has_graft doc s kind suppressed expanded o.drops_adopt hparent]
  split <;> rfl

theorem rank_graft {j : NodeId} (hj : j ≤ doc.size) :
    (doc.graft parent s kind suppressed expanded).rank o j = doc.rank o j := by
  apply List.countP_congr
  intro i hi
  have hlt : i < doc.size := Nat.lt_of_lt_of_le (List.mem_range.mp hi) hj
  rw [keeps_graft hparent, if_neg (Nat.ne_of_lt hlt)]

theorem renumber_graft {ids : List NodeId} (hids : ∀ i ∈ ids, i < doc.size) :
    (doc.graft parent s kind suppressed expanded).renumber o ids = doc.renumber o ids := by
  have hkeeps : ∀ i ∈ ids,
      (doc.graft parent s kind suppressed expanded).keeps o i = doc.keeps o i := by
    intro i hi
    rw [keeps_graft hparent, if_neg (Nat.ne_of_lt (hids i hi))]
  rw [renumber, List.filter_congr hkeeps, renumber]
  apply List.map_congr_left
  intro i hi
  exact rank_graft hparent s kind suppressed expanded
    (Nat.le_of_lt (hids i (List.mem_of_mem_filter hi)))

theorem renumber_size_graft :
    (doc.graft parent s kind suppressed expanded).renumber o [doc.size] =
      if o.omits s.text kind then [] else [doc.rank o doc.size] := by
  rw [renumber_singleton, keeps_graft hparent, if_pos rfl,
    rank_graft hparent s kind suppressed expanded (Nat.le_refl _)]
  cases o.omits s.text kind <;> rfl

end Graft

/-! ## Abridged documents -/

variable (o doc) in
/-- The second node is the first with its lists renumbered. -/
structure Renumbered (n m : Node) : Prop where
  bare_eq : m.bare = n.bare
  attrs_eq : m.attrs = doc.renumber o n.attrs
  children_eq : m.children = doc.renumber o n.children

variable (o doc) in
/-- The second document is the first without the nodes that are to be left out. -/
structure Abridged (small : Document) : Prop where
  size_eq : small.size = doc.rank o doc.size
  roots_eq : small.roots = doc.renumber o doc.roots
  node : ∀ {i n}, doc.get? i = some n → o.drops n = false →
    ∃ m, small.get? (doc.rank o i) = some m ∧ doc.Renumbered o n m

theorem abridged_empty : ({} : Document).Abridged o {} where
  size_eq := rfl
  roots_eq := rfl
  node := by simp [get?]

theorem Linked.below_lt (h : doc.Linked) {i j : NodeId} {n : Node} (hn : doc.get? i = some n)
    (hj : j ∈ n.below) : i < j ∧ j < doc.size := by
  have hparent : doc.parent? j = some i := by
    apply h.mem_below.mp
    rw [below, hn]
    exact hj
  exact ⟨h.parent_lt hparent, lt_size_of_parent? hparent⟩

section Growth

variable {small : Document} (h : doc.Abridged o small) (hlinked : doc.Linked)
  {parent : Option NodeId} (hparent : ∀ p, parent = some p → p < doc.size) {s : Statement}
  {kind : NodeKind} (suppressed expanded : Bool)
include hlinked hparent

section Node

variable {i : NodeId} {n m : Node} (hn : doc.get? i = some n) (hm : doc.Renumbered o n m)
include hn hm

theorem Renumbered.graft : (doc.graft parent s kind suppressed expanded).Renumbered o n m := by
  have hids : ∀ ids, ids ⊆ n.below →
      (doc.graft parent s kind suppressed expanded).renumber o ids = doc.renumber o ids :=
    fun ids hids ↦ renumber_graft hparent s kind suppressed expanded
      fun j hj ↦ (hlinked.below_lt hn (hids hj)).2
  exact ⟨hm.bare_eq, by rw [hm.attrs_eq, hids _ (List.subset_append_left _ _)],
    by rw [hm.children_eq, hids _ (List.subset_append_right _ _)]⟩

theorem Renumbered.adopt_omitted (homits : o.omits s.text kind = true) (asAttribute : Bool) :
    (doc.graft parent s kind suppressed expanded).Renumbered o (n.adopt doc.size asAttribute)
      m := by
  have hgraft : (doc.graft parent s kind suppressed expanded).Renumbered o n m :=
    hm.graft hlinked hparent suppressed expanded hn
  obtain ⟨hbare, hattrs, hchildren⟩ := hgraft
  have hsize := renumber_size_graft (o := o) hparent s kind suppressed expanded
  rw [if_pos homits] at hsize
  refine ⟨by rw [Node.bare_adopt, hbare], ?_, ?_⟩ <;> cases asAttribute <;>
    simp only [Node.adopt, renumber_append, hsize, List.append_nil, hattrs, hchildren, if_true,
      Bool.false_eq_true, if_false]

theorem Renumbered.adopt (homits : o.omits s.text kind = false) (asAttribute : Bool) :
    (doc.graft parent s kind suppressed expanded).Renumbered o (n.adopt doc.size asAttribute)
      (m.adopt (doc.rank o doc.size) asAttribute) := by
  have hgraft : (doc.graft parent s kind suppressed expanded).Renumbered o n m :=
    hm.graft hlinked hparent suppressed expanded hn
  obtain ⟨hbare, hattrs, hchildren⟩ := hgraft
  have hsize := renumber_size_graft (o := o) hparent s kind suppressed expanded
  rw [if_neg (by simp [homits])] at hsize
  refine ⟨by rw [Node.bare_adopt, Node.bare_adopt, hbare], ?_, ?_⟩ <;> cases asAttribute <;>
    simp only [Node.adopt, renumber_append, hsize, hattrs, hchildren, if_true,
      Bool.false_eq_true, if_false]

end Node

include h

/-- A node that is left out changes nothing. -/
theorem Abridged.graft_omitted (homits : o.omits s.text kind = true) :
    (doc.graft parent s kind suppressed expanded).Abridged o small := by
  refine ⟨?_, ?_, ?_⟩
  · rw [size_graft, rank_succ, keeps_graft hparent, if_pos rfl, homits,
      rank_graft hparent s kind suppressed expanded (Nat.le_refl _), h.size_eq]
    rfl
  · have hroots := renumber_graft (o := o) hparent s kind suppressed expanded
      fun i hi ↦ (hlinked.mem_roots.mp hi).1
    have hsize := renumber_size_graft (o := o) hparent s kind suppressed expanded
    rw [if_pos homits] at hsize
    rw [h.roots_eq, roots_graft]
    split
    · rw [renumber_append, hroots, hsize, List.append_nil]
    · rw [hroots]
  · intro i n' hn' hkept
    rw [get?_graft doc s kind suppressed expanded hparent] at hn'
    split at hn'
    · obtain rfl := Option.some.inj hn'
      exact absurd homits (Bool.eq_false_iff.mp hkept)
    · obtain ⟨n, hn, rfl⟩ := Option.map_eq_some_iff.mp hn'
      have hdrops : o.drops n = false := by
        split at hkept
        · rwa [o.drops_adopt] at hkept
        · exact hkept
      obtain ⟨m, hm, hshrinks⟩ := h.node hn hdrops
      refine ⟨m, ?_, ?_⟩
      · rw [rank_graft hparent s kind suppressed expanded (Nat.le_of_lt (lt_size_of_get? hn)), hm]
      · split
        · exact hshrinks.adopt_omitted hlinked hparent suppressed expanded hn homits _
        · exact hshrinks.graft hlinked hparent suppressed expanded hn

/-- A node that stays is a new node on both sides. -/
theorem Abridged.graft (hkeeps : ∀ p, parent = some p → doc.keeps o p = true)
    (homits : o.omits s.text kind = false) {s' : Statement} (htext : s'.text = s.text)
    (expanded' : Bool) :
    (doc.graft parent s kind suppressed expanded).Abridged o
      (small.graft (parent.map (doc.rank o)) s' kind suppressed expanded') := by
  have hparent' : ∀ p, parent.map (doc.rank o) = some p → p < small.size := by
    intro p' hp'
    obtain ⟨p, hp, rfl⟩ := Option.map_eq_some_iff.mp hp'
    rw [h.size_eq]
    exact rank_lt (hparent p hp) (hkeeps p hp)
  refine ⟨?_, ?_, ?_⟩
  · rw [size_graft, size_graft, rank_succ, keeps_graft hparent, if_pos rfl, homits,
      rank_graft hparent s kind suppressed expanded (Nat.le_refl _), h.size_eq]
    rfl
  · have hroots := renumber_graft (o := o) hparent s kind suppressed expanded
      fun i hi ↦ (hlinked.mem_roots.mp hi).1
    have hsize := renumber_size_graft (o := o) hparent s kind suppressed expanded
    rw [if_neg (by simp [homits])] at hsize
    rw [roots_graft, roots_graft, Option.isNone_map, h.roots_eq, h.size_eq]
    split
    · rw [renumber_append, hroots, hsize]
    · rw [hroots]
  · intro i n' hn' hkept
    rw [get?_graft doc s kind suppressed expanded hparent] at hn'
    rw [get?_graft small s' kind suppressed expanded' hparent']
    split at hn'
    · next hi =>
      obtain rfl := Option.some.inj hn'
      refine ⟨small.leaf (parent.map (doc.rank o)) s' kind suppressed expanded', ?_, ?_⟩
      · rw [hi, rank_graft hparent s kind suppressed expanded (Nat.le_refl _),
          if_pos h.size_eq.symm]
      · exact ⟨by simp [leaf, Node.bare, htext], rfl, rfl⟩
    · obtain ⟨n, hn, rfl⟩ := Option.map_eq_some_iff.mp hn'
      have hdrops : o.drops n = false := by
        split at hkept
        · rwa [o.drops_adopt] at hkept
        · exact hkept
      have hi : doc.keeps o i = true := by rw [keeps_of_get? hn, hdrops, Bool.not_false]
      obtain ⟨m, hm, hshrinks⟩ := h.node hn hdrops
      have hlt := rank_lt (lt_size_of_get? hn) hi
      rw [rank_graft hparent s kind suppressed expanded (Nat.le_of_lt (lt_size_of_get? hn)), hm,
        if_neg (by rw [h.size_eq]; exact Nat.ne_of_lt hlt), Option.map_some]
      refine ⟨_, rfl, ?_⟩
      by_cases hpi : parent = some i
      · rw [if_pos hpi, if_pos (by rw [hpi, Option.map_some]), h.size_eq]
        exact hshrinks.adopt hlinked hparent suppressed expanded hn homits _
      · rw [if_neg hpi, if_neg ?_]
        · exact hshrinks.graft hlinked hparent suppressed expanded hn
        · intro hmap
          obtain ⟨p, hp, hrank⟩ := Option.map_eq_some_iff.mp hmap
          rw [(rank_inj (hkeeps p hp) hi).mp hrank] at hp
          exact hpi hp

end Growth

/-! ## Suppressing declarations -/

theorem keeps_suppressDeclarations : doc.suppressDeclarations.keeps o = doc.keeps o := by
  funext i
  rw [keeps, has_suppressDeclarations (fun _ ↦ rfl), keeps]

theorem rank_suppressDeclarations : doc.suppressDeclarations.rank o = doc.rank o := by
  funext i
  rw [rank, keeps_suppressDeclarations, rank]

theorem renumber_suppressDeclarations : doc.suppressDeclarations.renumber o = doc.renumber o := by
  funext ids
  rw [renumber, keeps_suppressDeclarations, rank_suppressDeclarations, renumber]

theorem Abridged.suppressDeclarations {small : Document} (h : doc.Abridged o small) :
    doc.suppressDeclarations.Abridged o small.suppressDeclarations := by
  refine ⟨?_, ?_, ?_⟩
  · rw [size_suppressDeclarations, size_suppressDeclarations, rank_suppressDeclarations, h.size_eq]
  · rw [renumber_suppressDeclarations]
    exact h.roots_eq
  · intro i n' hn' hkept
    rw [get?_suppressDeclarations] at hn'
    obtain ⟨n, hn, rfl⟩ := Option.map_eq_some_iff.mp hn'
    have hdrops : o.drops n = false := by
      split at hkept <;> exact hkept
    obtain ⟨m, hm, hbare, hattrs, hchildren⟩ := h.node hn hdrops
    rw [← renumber_suppressDeclarations] at hattrs hchildren
    rw [get?_suppressDeclarations, rank_suppressDeclarations, hm, Option.map_some,
      Node.declaration?_eq_of_bare hbare]
    refine ⟨_, rfl, ?_⟩
    split
    · refine ⟨?_, hattrs, hchildren⟩
      exact congrArg (fun k : Node ↦ { k with suppressed := true }) hbare
    · exact ⟨hbare, hattrs, hchildren⟩

end Document

/-! ## Outlines -/

/-- The tree is a single node that is left out. -/
def Tree.isSpare (o : Omission) : Tree → Bool
  | .mk n _ children => o.drops n && children.isEmpty

mutual

/-- The tree with its nodes bare and without those that are left out. -/
def Tree.outline (o : Omission) : Tree → Tree
  | .mk n attrs children =>
    .mk n.bare ((attrs.filter fun a ↦ !o.drops a).map Node.bare) (Tree.outlineAll o children)

def Tree.outlineAll (o : Omission) : List Tree → List Tree
  | [] => []
  | t :: rest =>
    if t.isSpare o then Tree.outlineAll o rest else t.outline o :: Tree.outlineAll o rest

end

theorem Tree.not_isSpare {o : Omission} {t : Tree} (h : o.drops t.node = false) :
    t.isSpare o = false := by
  cases t
  simp_all [isSpare, node]

theorem Tree.drops_of_outline {o : Omission} {t t' : Tree} (h : t'.outline o = t.outline o) :
    o.drops t'.node = o.drops t.node := by
  cases t with
  | mk n attrs children =>
    cases t' with
    | mk m attrs' children' =>
      rw [outline, outline, Tree.mk.injEq] at h
      exact o.drops_eq_of_bare h.1

namespace Document

variable {o : Omission} {doc small : Document}

theorem exists_treeWithin {bound : Nat} {i : NodeId} {n : Node} (hn : doc.get? i = some n)
    (hbound : doc.size ≤ i + bound) :
    ∃ bound', bound = bound' + 1 ∧ doc.treeWithin bound i =
      some (.mk n (n.attrs.filterMap doc.get?) (n.children.filterMap (doc.treeWithin bound'))) := by
  cases bound with
  | zero => exact absurd (lt_size_of_get? hn) (Nat.not_lt_of_le hbound)
  | succ bound => exact ⟨bound, rfl, by rw [treeWithin, hn, Option.map_some]⟩

/-- A bound that is enough for a node is enough for a later one, with one level less. -/
theorem le_add_of_lt {size i j bound : Nat} (hij : i < j) (h : size ≤ i + (bound + 1)) :
    size ≤ j + bound := by
  omega

section Outline

variable (h : doc.Abridged o small) (hlinked : doc.Linked)
  (hparents : ∀ {j i}, doc.parent? j = some i → doc.keeps o i = true)
include h

theorem Abridged.outline_attrs {ids : List NodeId} (hids : ∀ j ∈ ids, j < doc.size) :
    (((doc.renumber o ids).filterMap small.get?).filter fun a ↦ !o.drops a).map Node.bare =
      ((ids.filterMap doc.get?).filter fun a ↦ !o.drops a).map Node.bare := by
  induction ids with
  | nil => rfl
  | cons j ids ih =>
    obtain ⟨n, hn⟩ := exists_get? (hids j List.mem_cons_self)
    have hrest := ih fun k hk ↦ hids k (List.mem_cons_of_mem j hk)
    rw [← List.singleton_append, renumber_append, renumber_singleton, keeps_of_get? hn]
    cases hdrops : o.drops n with
    | true => simp [hn, hdrops, hrest]
    | false =>
      obtain ⟨m, hm, hshrinks⟩ := h.node hn hdrops
      have hdrops' : o.drops m = false := (o.drops_eq_of_bare hshrinks.bare_eq).trans hdrops
      simp [hn, hm, hdrops, hdrops', hshrinks.bare_eq, hrest]

include hlinked hparents

omit h in
theorem children_of_not_keeps {i : NodeId} {n : Node} (hn : doc.get? i = some n)
    (hi : doc.keeps o i = false) : n.children = [] := by
  apply List.eq_nil_iff_forall_not_mem.mpr
  intro j hj
  have hkeeps := hparents ((hlinked.mem_children hn).mp hj).1
  rw [hi] at hkeeps
  cases hkeeps

omit h in
theorem outlineAll_treeWithin {bound bound' : Nat} {ids : List NodeId}
    (hids : ∀ j ∈ ids, j < doc.size ∧ doc.size ≤ j + bound)
    (htrees : ∀ j ∈ ids, doc.keeps o j = true →
      ∃ t t', doc.treeWithin bound j = some t ∧ small.treeWithin bound' (doc.rank o j) = some t' ∧
        o.drops t.node = false ∧ t'.outline o = t.outline o) :
    Tree.outlineAll o ((doc.renumber o ids).filterMap (small.treeWithin bound')) =
      Tree.outlineAll o (ids.filterMap (doc.treeWithin bound)) := by
  induction ids with
  | nil => rfl
  | cons j ids ih =>
    obtain ⟨hlt, hbound⟩ := hids j List.mem_cons_self
    have hrest := ih (fun k hk ↦ hids k (List.mem_cons_of_mem j hk))
      fun k hk ↦ htrees k (List.mem_cons_of_mem j hk)
    obtain ⟨n, hn⟩ := exists_get? hlt
    have hcons : doc.renumber o (j :: ids) = doc.renumber o [j] ++ doc.renumber o ids :=
      renumber_append [j] ids
    rw [hcons, renumber_singleton]
    cases hkeeps : doc.keeps o j with
    | true =>
      obtain ⟨t, t', ht, ht', hdrops, houtline⟩ := htrees j List.mem_cons_self hkeeps
      rw [if_pos rfl, List.singleton_append, List.filterMap_cons_some ht,
        List.filterMap_cons_some ht', Tree.outlineAll, Tree.outlineAll,
        Tree.not_isSpare hdrops,
        Tree.not_isSpare ((Tree.drops_of_outline houtline).trans hdrops), houtline, hrest]
    | false =>
      obtain ⟨bound, rfl, htree⟩ := exists_treeWithin hn hbound
      rw [children_of_not_keeps hlinked hparents hn hkeeps, List.filterMap_nil] at htree
      have hdrops : o.drops n = true := by simpa [keeps_of_get? hn] using hkeeps
      have hspare : Tree.isSpare o (.mk n (n.attrs.filterMap doc.get?) []) = true := by
        simp [Tree.isSpare, hdrops]
      rw [if_neg (by simp), List.nil_append, hrest, List.filterMap_cons_some htree,
        Tree.outlineAll, if_pos hspare]

/-- The trees at a node that stays have the same outline. -/
theorem Abridged.outline_treeWithin {bound bound' : Nat} {i : NodeId} (hi : doc.keeps o i = true)
    (hlt : i < doc.size) (hbound : doc.size ≤ i + bound)
    (hbound' : small.size ≤ doc.rank o i + bound') :
    ∃ t t', doc.treeWithin bound i = some t ∧ small.treeWithin bound' (doc.rank o i) = some t' ∧
      o.drops t.node = false ∧ t'.outline o = t.outline o := by
  induction bound generalizing i bound' with
  | zero => exact absurd hlt (Nat.not_lt_of_le hbound)
  | succ bound ih =>
    obtain ⟨n, hn⟩ := exists_get? hlt
    have hdrops : o.drops n = false := by simpa [keeps_of_get? hn] using hi
    obtain ⟨m, hm, hbare, hattrs, hchildren⟩ := h.node hn hdrops
    obtain ⟨bound', rfl, htree'⟩ := exists_treeWithin hm hbound'
    have htree : doc.treeWithin (bound + 1) i = some (.mk n (n.attrs.filterMap doc.get?)
        (n.children.filterMap (doc.treeWithin bound))) := by
      rw [treeWithin, hn, Option.map_some]
    refine ⟨_, _, htree, htree', hdrops, ?_⟩
    have hbelow : ∀ j ∈ n.children, i < j ∧ j < doc.size :=
      fun j hj ↦ hlinked.below_lt hn (List.mem_append_right _ hj)
    rw [Tree.outline, Tree.outline, hbare, hattrs, hchildren,
      h.outline_attrs fun j hj ↦ (hlinked.below_lt hn (List.mem_append_left _ hj)).2,
      outlineAll_treeWithin hlinked hparents ?_ ?_]
    · exact fun j hj ↦ ⟨(hbelow j hj).2, le_add_of_lt (hbelow j hj).1 hbound⟩
    · intro j hj hkeeps
      exact ih hkeeps (hbelow j hj).2 (le_add_of_lt (hbelow j hj).1 hbound)
        (le_add_of_lt (rank_lt (hbelow j hj).1 hi) hbound')

theorem Abridged.outlineAll_forest :
    Tree.outlineAll o small.forest = Tree.outlineAll o doc.forest := by
  rw [forest, forest, h.roots_eq]
  have hroots : ∀ i ∈ doc.roots, i < doc.size := fun i hi ↦ (hlinked.mem_roots.mp hi).1
  refine outlineAll_treeWithin hlinked hparents ?_ ?_
  · exact fun i hi ↦ ⟨hroots i hi, Nat.le_add_left _ _⟩
  · exact fun i hi hkeeps ↦ h.outline_treeWithin hlinked hparents hkeeps (hroots i hi)
      (Nat.le_add_left _ _) (Nat.le_add_left _ _)

end Outline

end Document

end StyledMarkup
