import Mathlib.Data.List.Nodup
import Mathlib.Data.List.Perm.Basic
import StyledMarkup.Document
import StyledMarkup.Statement

/-!
# Links between the nodes of a document

A document that is built from statements grows by one node at a time: the new node is stored under
the next number and listed with the innermost open block. So the lists of a document are determined
by the parents of its nodes. Each list holds, in increasing order, the nodes that have its owner as
their parent, and a parent is older than its children.
-/

namespace StyledMarkup

namespace Document

def parent? (doc : Document) (j : NodeId) : Option NodeId :=
  (doc.get? j).bind Node.parent

/-- The node is stored and has this property. -/
def has (doc : Document) (p : Node → Bool) (j : NodeId) : Bool :=
  (doc.get? j).any p

def leaf (doc : Document) (parent : Option NodeId) (s : Statement) (kind : NodeKind)
    (suppressed expanded : Bool) : Node :=
  { raw := s.text, kind, line := s.line, parent, sourceIndex := doc.size, suppressed, expanded }

/-- The document with a new node for a statement, attached below `parent`. -/
def graft (doc : Document) (parent : Option NodeId) (s : Statement) (kind : NodeKind)
    (suppressed expanded : Bool) : Document :=
  (doc.alloc { raw := s.text, kind, line := s.line, suppressed, expanded }).attach parent doc.size

theorem get?_eq_none_iff {doc : Document} {j : NodeId} : doc.get? j = none ↔ doc.size ≤ j := by
  simp [get?, size]

theorem lt_size_of_get? {doc : Document} {j : NodeId} {n : Node} (h : doc.get? j = some n) :
    j < doc.size := by
  by_contra hle
  rw [get?_eq_none_iff.mpr (Nat.le_of_not_lt hle)] at h
  cases h

theorem exists_get? {doc : Document} {j : NodeId} (h : j < doc.size) :
    ∃ n, doc.get? j = some n := by
  cases hget : doc.get? j with
  | none => exact absurd (get?_eq_none_iff.mp hget) (Nat.not_le_of_lt h)
  | some n => exact ⟨n, rfl⟩

theorem lt_size_of_parent? {doc : Document} {i j : NodeId} (h : doc.parent? j = some i) :
    j < doc.size := by
  obtain ⟨n, hn, -⟩ := Option.bind_eq_some_iff.mp h
  exact lt_size_of_get? hn

/-! ## Growing by a node -/

theorem parent_adopt (n : Node) (id : NodeId) (asAttribute : Bool) :
    (n.adopt id asAttribute).parent = n.parent := by
  cases asAttribute <;> rfl

theorem isAttribute_adopt (n : Node) (id : NodeId) (asAttribute : Bool) :
    (n.adopt id asAttribute).isAttribute = n.isAttribute := by
  cases asAttribute <;> rfl

section Graft

variable (doc : Document) (parent : Option NodeId) (s : Statement) (kind : NodeKind)
  (suppressed expanded : Bool)

@[simp] theorem size_graft :
    (doc.graft parent s kind suppressed expanded).size = doc.size + 1 := by
  cases parent <;> simp [graft, attach, alloc, size]

theorem roots_graft :
    (doc.graft parent s kind suppressed expanded).roots =
      if parent.isNone then doc.roots ++ [doc.size] else doc.roots := by
  cases parent <;> simp [graft, attach, alloc]

variable {parent}

theorem get?_graft (hparent : ∀ p, parent = some p → p < doc.size) (j : NodeId) :
    (doc.graft parent s kind suppressed expanded).get? j =
      if j = doc.size then some (doc.leaf parent s kind suppressed expanded)
      else (doc.get? j).map fun n ↦
        if parent = some j then
          n.adopt doc.size (doc.leaf parent s kind suppressed expanded).isAttribute
        else n := by
  cases parent with
  | none => simp [graft, attach, alloc, get?, size, leaf, Array.getElem?_push]
  | some p =>
    have hp : p ≠ doc.size := Nat.ne_of_lt (hparent p rfl)
    have hsize : doc.nodes.size = doc.size := rfl
    simp only [graft, attach, get?, Array.getElem?_modify, alloc, Array.getElem?_push, hsize]
    by_cases hj : j = doc.size
    · subst hj
      simp [hp, leaf]
    · by_cases hpj : p = j
      · simp [hj, hpj, Ne.symm hj, leaf, Node.isAttribute]
      · simp [hj, hpj, Ne.symm hj]

/-- What does not depend on the lists of a node is the same before and after. -/
theorem map_get?_graft {α : Type*} {f : Node → α}
    (hf : ∀ n id asAttribute, f (Node.adopt n id asAttribute) = f n)
    (hparent : ∀ p, parent = some p → p < doc.size) (j : NodeId) :
    ((doc.graft parent s kind suppressed expanded).get? j).map f =
      if j = doc.size then some (f (doc.leaf parent s kind suppressed expanded))
      else (doc.get? j).map f := by
  rw [get?_graft doc s kind suppressed expanded hparent]
  split
  · rfl
  · rw [Option.map_map]
    congr 1
    funext n
    simp only [Function.comp_apply]
    split
    · exact hf n _ _
    · rfl

theorem has_graft {p : Node → Bool}
    (hp : ∀ n id asAttribute, p (Node.adopt n id asAttribute) = p n)
    (hparent : ∀ p, parent = some p → p < doc.size) (j : NodeId) :
    (doc.graft parent s kind suppressed expanded).has p j =
      if j = doc.size then p (doc.leaf parent s kind suppressed expanded) else doc.has p j := by
  have hmap := map_get?_graft doc s kind suppressed expanded hp hparent j
  have hany : ∀ o : Option Node, o.any p = (o.map p).any id := by
    intro o
    cases o <;> rfl
  rw [has, has, hany, hmap]
  split
  · rfl
  · exact (hany _).symm

theorem parent?_graft (hparent : ∀ p, parent = some p → p < doc.size) (j : NodeId) :
    (doc.graft parent s kind suppressed expanded).parent? j =
      if j = doc.size then parent else doc.parent? j := by
  have hmap := map_get?_graft doc s kind suppressed expanded parent_adopt hparent j
  have hbind : ∀ o : Option Node, o.bind Node.parent = (o.map Node.parent).join := by
    intro o
    cases o <;> rfl
  rw [parent?, parent?, hbind, hmap]
  split
  · rfl
  · exact (hbind _).symm

/-- What holds of every node and does not depend on the lists has to be shown of the new node
only. -/
theorem forall_graft {P : NodeId → Node → Prop}
    (hP : ∀ j n id asAttribute, P j n → P j (Node.adopt n id asAttribute))
    (hparent : ∀ p, parent = some p → p < doc.size)
    (hold : ∀ j n, doc.get? j = some n → P j n)
    (hnew : P doc.size (doc.leaf parent s kind suppressed expanded)) :
    ∀ j n, (doc.graft parent s kind suppressed expanded).get? j = some n → P j n := by
  intro j n hn
  rw [get?_graft doc s kind suppressed expanded hparent] at hn
  split at hn
  · next hj =>
    obtain rfl := Option.some.inj hn
    rw [hj]
    exact hnew
  · obtain ⟨m, hm, rfl⟩ := Option.map_eq_some_iff.mp hn
    split
    · exact hP j m _ _ (hold j m hm)
    · exact hold j m hm

end Graft

/-! ## Lists and parents -/

/-- The nodes with this parent that are attributes, or those that are not, in order of creation. -/
def listed (doc : Document) (parent : NodeId) (asAttribute : Bool) : List NodeId :=
  (List.range doc.size).filter fun j ↦
    doc.parent? j == some parent && doc.has Node.isAttribute j == asAttribute

/-- The lists of a document are those that the parents of its nodes call for. -/
structure Linked (doc : Document) : Prop where
  parent_lt : ∀ {j i}, doc.parent? j = some i → i < j
  roots_eq : doc.roots = (List.range doc.size).filter fun j ↦ (doc.parent? j).isNone
  attrs_eq : ∀ {i n}, doc.get? i = some n → n.attrs = doc.listed i true
  children_eq : ∀ {i n}, doc.get? i = some n → n.children = doc.listed i false

theorem linked_empty : ({} : Document).Linked where
  parent_lt := by simp [parent?, get?]
  roots_eq := rfl
  attrs_eq := by simp [get?]
  children_eq := by simp [get?]

theorem listed_graft {doc : Document} {parent : Option NodeId}
    (hparent : ∀ p, parent = some p → p < doc.size) (s : Statement) (kind : NodeKind)
    (suppressed expanded : Bool) (i : NodeId) (asAttribute : Bool) :
    (doc.graft parent s kind suppressed expanded).listed i asAttribute =
      doc.listed i asAttribute ++
        if parent = some i ∧
            (doc.leaf parent s kind suppressed expanded).isAttribute = asAttribute then
          [doc.size]
        else [] := by
  have hold : ∀ j ∈ List.range doc.size,
      ((doc.graft parent s kind suppressed expanded).parent? j == some i &&
        (doc.graft parent s kind suppressed expanded).has Node.isAttribute j == asAttribute) =
      (doc.parent? j == some i && doc.has Node.isAttribute j == asAttribute) := by
    intro j hj
    have hne : j ≠ doc.size := Nat.ne_of_lt (List.mem_range.mp hj)
    rw [parent?_graft doc s kind suppressed expanded hparent,
      has_graft doc s kind suppressed expanded isAttribute_adopt hparent, if_neg hne, if_neg hne]
  rw [listed, size_graft, List.range_succ, List.filter_append, List.filter_congr hold]
  congr 1
  simp only [List.filter_singleton, parent?_graft doc s kind suppressed expanded hparent,
    has_graft doc s kind suppressed expanded isAttribute_adopt hparent, if_true]
  by_cases hp : parent = some i
  · by_cases ha : (doc.leaf parent s kind suppressed expanded).isAttribute = asAttribute
    · simp [← hp, ha]
    · simp [← hp, ha, beq_eq_false_iff_ne.mpr ha]
  · simp [hp, beq_eq_false_iff_ne.mpr hp]

theorem Linked.graft {doc : Document} (h : doc.Linked) {parent : Option NodeId}
    (hparent : ∀ p, parent = some p → p < doc.size) (s : Statement) (kind : NodeKind)
    (suppressed expanded : Bool) : (doc.graft parent s kind suppressed expanded).Linked := by
  have hnone : ∀ asAttribute, doc.listed doc.size asAttribute = [] := by
    intro asAttribute
    rw [listed, List.filter_eq_nil_iff]
    intro j hj heq
    have hlt : doc.size < j := h.parent_lt (by simpa using (Bool.and_eq_true_iff.mp heq).1)
    exact Nat.lt_asymm hlt (List.mem_range.mp hj)
  have hself : parent ≠ some doc.size := fun heq ↦ Nat.lt_irrefl _ (hparent _ heq)
  refine ⟨?_, ?_, ?_, ?_⟩
  · intro j i hji
    rw [parent?_graft doc s kind suppressed expanded hparent] at hji
    split at hji
    · next hj =>
      rw [hj]
      exact hparent i hji
    · exact h.parent_lt hji
  · have hold : ∀ j ∈ List.range doc.size,
        ((doc.graft parent s kind suppressed expanded).parent? j).isNone =
          (doc.parent? j).isNone := by
      intro j hj
      rw [parent?_graft doc s kind suppressed expanded hparent,
        if_neg (Nat.ne_of_lt (List.mem_range.mp hj))]
    rw [roots_graft, size_graft, List.range_succ, List.filter_append, List.filter_congr hold,
      ← h.roots_eq, List.filter_singleton, parent?_graft doc s kind suppressed expanded hparent,
      if_pos rfl]
    cases parent <;> simp
  all_goals
    intro i n hn
    rw [get?_graft doc s kind suppressed expanded hparent] at hn
    rw [listed_graft hparent]
    split at hn
    · next hi =>
      obtain rfl := Option.some.inj hn
      simp [hi, hself, hnone, leaf]
    · obtain ⟨m, hm, rfl⟩ := Option.map_eq_some_iff.mp hn
      have hattrs := h.attrs_eq hm
      have hchildren := h.children_eq hm
      split
      · cases hkind : (doc.leaf parent s kind suppressed expanded).isAttribute <;>
          simp_all [Node.adopt]
      · simp_all

namespace Linked

variable {doc : Document} (h : doc.Linked)
include h

theorem mem_attrs {i j : NodeId} {n : Node} (hn : doc.get? i = some n) :
    j ∈ n.attrs ↔ doc.parent? j = some i ∧ doc.has Node.isAttribute j = true := by
  rw [h.attrs_eq hn, listed, List.mem_filter, List.mem_range]
  simp only [Bool.and_eq_true, beq_iff_eq]
  exact ⟨And.right, fun hj ↦ ⟨lt_size_of_parent? hj.1, hj⟩⟩

theorem mem_children {i j : NodeId} {n : Node} (hn : doc.get? i = some n) :
    j ∈ n.children ↔ doc.parent? j = some i ∧ doc.has Node.isAttribute j = false := by
  rw [h.children_eq hn, listed, List.mem_filter, List.mem_range]
  simp only [Bool.and_eq_true, beq_iff_eq]
  exact ⟨And.right, fun hj ↦ ⟨lt_size_of_parent? hj.1, hj⟩⟩

theorem mem_roots {j : NodeId} : j ∈ doc.roots ↔ j < doc.size ∧ doc.parent? j = none := by
  rw [h.roots_eq, List.mem_filter, List.mem_range, Option.isNone_iff_eq_none]

theorem mem_below {i j : NodeId} : j ∈ doc.below i ↔ doc.parent? j = some i := by
  cases hget : doc.get? i with
  | none =>
    simp only [below, hget, Option.map_none, Option.getD_none, List.not_mem_nil, false_iff]
    intro hj
    exact Nat.not_lt_of_le (get?_eq_none_iff.mp hget)
      (Nat.lt_trans (h.parent_lt hj) (lt_size_of_parent? hj))
  | some n =>
    simp only [below, hget, Option.map_some, Option.getD_some, Node.below, List.mem_append,
      h.mem_attrs hget, h.mem_children hget]
    cases doc.has Node.isAttribute j <;> simp

theorem sorted_roots : doc.roots.Pairwise (· < ·) := by
  rw [h.roots_eq]
  exact List.pairwise_lt_range.filter _

theorem sorted_attrs {i : NodeId} {n : Node} (hn : doc.get? i = some n) :
    n.attrs.Pairwise (· < ·) := by
  rw [h.attrs_eq hn]
  exact List.pairwise_lt_range.filter _

theorem sorted_children {i : NodeId} {n : Node} (hn : doc.get? i = some n) :
    n.children.Pairwise (· < ·) := by
  rw [h.children_eq hn]
  exact List.pairwise_lt_range.filter _

theorem nodup_below {i : NodeId} {n : Node} (hn : doc.get? i = some n) : n.below.Nodup := by
  rw [Node.below, List.nodup_append]
  refine ⟨(h.sorted_attrs hn).imp Nat.ne_of_lt, (h.sorted_children hn).imp Nat.ne_of_lt, ?_⟩
  rintro j hattrs k hchildren rfl
  have htrue := ((h.mem_attrs hn).mp hattrs).2
  rw [((h.mem_children hn).mp hchildren).2] at htrue
  cases htrue

/-- Every node stands in exactly one list, once. -/
theorem perm_range : (doc.roots ++ doc.nodes.toList.flatMap Node.below).Perm
    (List.range doc.size) := by
  have hget : ∀ {i : Nat} {n : Node}, doc.nodes.toList[i]? = some n ↔ doc.get? i = some n := by
    simp [get?]
  have hbelow : ∀ {j : NodeId}, j ∈ doc.nodes.toList.flatMap Node.below ↔
      ∃ i, doc.parent? j = some i := by
    intro j
    rw [List.mem_flatMap]
    constructor
    · rintro ⟨n, hn, hj⟩
      obtain ⟨i, hi⟩ := List.mem_iff_getElem?.mp hn
      refine ⟨i, h.mem_below.mp ?_⟩
      simpa [below, hget.mp hi] using hj
    · rintro ⟨i, hi⟩
      obtain ⟨n, hn⟩ := exists_get? (Nat.lt_trans (h.parent_lt hi) (lt_size_of_parent? hi))
      refine ⟨n, List.mem_iff_getElem?.mpr ⟨i, hget.mpr hn⟩, ?_⟩
      simpa [below, hn] using h.mem_below.mpr hi
  refine (List.perm_ext_iff_of_nodup ?_ List.nodup_range).mpr ?_
  · rw [List.nodup_append, List.nodup_flatMap, List.pairwise_iff_getElem]
    refine ⟨h.sorted_roots.imp Nat.ne_of_lt, ⟨?_, ?_⟩, ?_⟩
    · intro n hn
      obtain ⟨i, hi⟩ := List.mem_iff_getElem?.mp hn
      exact h.nodup_below (hget.mp hi)
    · intro i k hi hk hik j hji hjk
      have hparent : ∀ {m : Nat} (hm : m < doc.nodes.toList.length),
          j ∈ (doc.nodes.toList[m]).below → doc.parent? j = some m := by
        intro m hm hj
        apply h.mem_below.mp
        have hn := hget.mp (List.getElem?_eq_getElem hm)
        simpa [below, hn] using hj
      have heq := (hparent hi hji).symm.trans (hparent hk hjk)
      exact absurd (Option.some.inj heq) (Nat.ne_of_lt hik)
    · rintro j hroot k hk rfl
      obtain ⟨i, hi⟩ := hbelow.mp hk
      simp [(h.mem_roots.mp hroot).2] at hi
  · intro j
    rw [List.mem_append, h.mem_roots, hbelow, List.mem_range]
    constructor
    · rintro (hj | ⟨i, hi⟩)
      · exact hj.1
      · exact lt_size_of_parent? hi
    · intro hj
      cases hp : doc.parent? j with
      | none => exact Or.inl ⟨hj, rfl⟩
      | some i => exact Or.inr ⟨i, rfl⟩

end Linked

/-- The lists of a document and the parents of its nodes agree, in whatever order the nodes came
into the lists. -/
structure Coherent (doc : Document) : Prop where
  parent_lt : ∀ {j i}, doc.parent? j = some i → i < j
  mem_below : ∀ {i j}, j ∈ doc.below i ↔ doc.parent? j = some i
  nodup_below : ∀ {i}, (doc.below i).Nodup

theorem Linked.coherent {doc : Document} (h : doc.Linked) : doc.Coherent where
  parent_lt := h.parent_lt
  mem_below := h.mem_below
  nodup_below := by
    intro i
    cases hget : doc.get? i with
    | none => simp [below, hget]
    | some n => simpa [below, hget] using h.nodup_below hget

end Document

end StyledMarkup
