import StyledMarkup.Proofs.Document.Order

/-!
# Documents built by hand

A document can be built by storing nodes and attaching them in any order. As long as each node is
attached at most once, and only below an older one, its lists agree with the parents of its nodes.
Then a walk that keeps the nodes still to be visited on a stack comes to an end, and what it has
listed is exactly what is below the node that it started at.
-/

namespace StyledMarkup

namespace Node

/-- Nothing is attached to the node, and it is attached nowhere. -/
def IsFresh (n : Node) : Prop :=
  n.below = [] ∧ n.parent = none

theorem below_adopt_perm (n : Node) (id : NodeId) (asAttribute : Bool) :
    (n.adopt id asAttribute).below.Perm (id :: n.below) := by
  cases asAttribute with
  | false =>
    have hlast : (n.adopt id false).below = n.below ++ [id] := by simp [adopt, below]
    rw [hlast]
    exact List.perm_append_singleton id n.below
  | true =>
    have hmiddle : (n.adopt id true).below = n.attrs ++ id :: n.children := by
      simp [adopt, below]
    rw [hmiddle]
    exact List.perm_middle

end Node

namespace Document

/-- The document is built by storing new nodes and attaching stored ones, each at most once and only
below an older node. The list has the nodes that have been attached. -/
inductive Built : Document → List NodeId → Prop
  | empty : Built {} []
  | alloc {doc : Document} {attached : List NodeId} {n : Node} (h : Built doc attached)
    (hn : n.IsFresh) : Built (doc.alloc n) attached
  | attach {doc : Document} {attached : List NodeId} {parent : Option NodeId} {child : NodeId}
    (h : Built doc attached) (hchild : child < doc.size) (honce : child ∉ attached)
    (holder : ∀ p, parent = some p → p < child) :
    Built (doc.attach parent child) (child :: attached)

/-! ## What one step changes -/

section Steps

variable {doc : Document}

@[simp] theorem size_alloc (n : Node) : (doc.alloc n).size = doc.size + 1 := by
  simp [alloc, size]

@[simp] theorem size_attach (parent : Option NodeId) (child : NodeId) :
    (doc.attach parent child).size = doc.size := by
  cases parent <;> simp [attach, size]

theorem get?_alloc (n : Node) (j : NodeId) :
    (doc.alloc n).get? j =
      if j = doc.size then some { n with sourceIndex := doc.size } else doc.get? j := by
  simp only [alloc, get?, size, Array.getElem?_push]
  rfl

theorem parent?_alloc {n : Node} (hn : n.IsFresh) (j : NodeId) :
    (doc.alloc n).parent? j = doc.parent? j := by
  rw [parent?, get?_alloc]
  split
  · next hj => simp [parent?, get?_eq_none_iff.mpr (Nat.le_of_eq hj.symm), hn.2]
  · rfl

theorem below_alloc {n : Node} (hn : n.IsFresh) (i : NodeId) :
    (doc.alloc n).below i = doc.below i := by
  rw [below, get?_alloc]
  split
  · next hi =>
    have hnone : doc.below i = [] := by simp [below, get?_eq_none_iff.mpr (Nat.le_of_eq hi.symm)]
    rw [hnone]
    exact hn.1
  · rfl

theorem get?_attach (p child j : NodeId) :
    (doc.attach (some p) child).get? j = (doc.get? j).map fun n ↦
      let n := if j = child then { n with parent := some p } else n
      if j = p then n.adopt child ((doc.get? child).any Node.isAttribute) else n := by
  have hmap : ∀ (c : Prop) [Decidable c] (f : Node → Node) (o : Option Node),
      (if c then o.map f else o) = o.map fun n ↦ if c then f n else n := by
    intro c _ f o
    split <;> simp
  simp only [attach, get?, Array.getElem?_modify, hmap, Option.map_map, eq_comm (a := p),
    eq_comm (a := child)]
  by_cases hj : j = p
  · simp only [if_pos hj]
    rfl
  · simp only [if_neg hj]

theorem parent?_attach {p child : NodeId} (hchild : child < doc.size) (j : NodeId) :
    (doc.attach (some p) child).parent? j = if j = child then some p else doc.parent? j := by
  rw [parent?, get?_attach]
  by_cases hj : j = child
  · obtain ⟨n, hn⟩ := exists_get? (hj ▸ hchild)
    rw [if_pos hj, hn, Option.map_some, Option.bind_some]
    simp only [if_pos hj]
    split
    · exact parent_adopt _ _ _
    · rfl
  · rw [if_neg hj, parent?]
    simp only [if_neg hj]
    cases doc.get? j with
    | none => rfl
    | some n =>
      rw [Option.map_some, Option.bind_some, Option.bind_some]
      split
      · exact parent_adopt _ _ _
      · rfl

theorem below_attach_of_ne {p child i : NodeId} (hi : i ≠ p) :
    (doc.attach (some p) child).below i = doc.below i := by
  rw [below, below, get?_attach]
  simp only [if_neg hi, Option.map_map]
  congr 2
  funext n
  rw [Function.comp_apply]
  split <;> rfl

theorem below_attach_perm {p : NodeId} (hp : p < doc.size) (child : NodeId) :
    ((doc.attach (some p) child).below p).Perm (child :: doc.below p) := by
  obtain ⟨n, hn⟩ := exists_get? hp
  have hbefore : doc.below p = n.below := by simp [below, hn]
  rw [below, get?_attach, hn, hbefore]
  simp only [if_true, Option.map_some, Option.getD_some]
  split
  · exact Node.below_adopt_perm _ _ _
  · exact Node.below_adopt_perm _ _ _

/-- A node that has no parent yet can be attached below an older one. -/
theorem Coherent.attach {p child : NodeId} (h : doc.Coherent) (hchild : child < doc.size)
    (hnone : doc.parent? child = none) (hp : p < child) :
    (doc.attach (some p) child).Coherent := by
  have hperm := below_attach_perm (Nat.lt_trans hp hchild) child
  have hnot : ∀ i, child ∉ doc.below i := by
    intro i hmem
    rw [h.mem_below, hnone] at hmem
    cases hmem
  refine ⟨?_, ?_, ?_⟩
  · intro j i hj
    rw [parent?_attach hchild] at hj
    split at hj
    · next hj' =>
      obtain rfl := Option.some.inj hj
      exact hj' ▸ hp
    · exact h.parent_lt hj
  · intro i j
    rw [parent?_attach hchild]
    by_cases hi : i = p
    · rw [hi, hperm.mem_iff, List.mem_cons, h.mem_below]
      split
      · next hj => simp [hj]
      · next hj => simp [hj]
    · rw [below_attach_of_ne hi, h.mem_below]
      split
      · next hj =>
        rw [hj, hnone]
        simp [Ne.symm hi]
      · rfl
  · intro i
    by_cases hi : i = p
    · rw [hi, hperm.nodup_iff, List.nodup_cons]
      exact ⟨hnot p, h.nodup_below⟩
    · rw [below_attach_of_ne hi]
      exact h.nodup_below

end Steps

/-- However a document is built, its lists agree with the parents of its nodes, and only what has
been attached has a parent. -/
theorem Built.coherent {doc : Document} {attached : List NodeId} (h : doc.Built attached) :
    doc.Coherent ∧ ∀ j i, doc.parent? j = some i → j ∈ attached := by
  induction h with
  | empty =>
    refine ⟨linked_empty.coherent, fun j i hj ↦ ?_⟩
    cases hj
  | @alloc doc attached n _ hn ih =>
    obtain ⟨hdoc, hattached⟩ := ih
    refine ⟨⟨?_, ?_, ?_⟩, ?_⟩
    · intro j i hj
      exact hdoc.parent_lt (parent?_alloc hn j ▸ hj)
    · intro i j
      rw [below_alloc hn, parent?_alloc hn]
      exact hdoc.mem_below
    · intro i
      rw [below_alloc hn]
      exact hdoc.nodup_below
    · intro j i hj
      exact hattached j i (parent?_alloc hn j ▸ hj)
  | @attach doc attached parent child _ hchild honce holder ih =>
    obtain ⟨hdoc, hattached⟩ := ih
    cases parent with
    | none =>
      -- only the list of roots grows
      exact ⟨⟨hdoc.parent_lt, hdoc.mem_below, hdoc.nodup_below⟩,
        fun j i hj ↦ List.mem_cons_of_mem child (hattached j i hj)⟩
    | some p =>
      have hnone : doc.parent? child = none :=
        Option.eq_none_iff_forall_ne_some.mpr fun i hi ↦ honce (hattached child i hi)
      refine ⟨hdoc.attach hchild hnone (holder p rfl), fun j i hj ↦ ?_⟩
      rw [parent?_attach hchild] at hj
      split at hj
      · next hj' => exact hj' ▸ List.mem_cons_self
      · exact List.mem_cons_of_mem child (hattached j i hj)

/-! ## Walking with a stack -/

/-- A walk over what is below a node: what it has listed, and the nodes that it still has to visit,
the next one first. -/
structure Walk where
  found : List NodeId
  stack : List NodeId
  deriving DecidableEq, Repr

namespace Walk

/-- Visits the next node: what is directly below it is listed and put on the stack, the last of it
on top. There is no step from an empty stack, and none when the next node is not stored. -/
def next? (doc : Document) (w : Walk) : Option Walk :=
  match w.stack with
  | [] => none
  | i :: stack => (doc.get? i).map fun n ↦ ⟨w.found ++ n.below, n.below.reverse ++ stack⟩

/-- The walk after so many steps. -/
def after? (doc : Document) : (steps : Nat) → Walk → Option Walk
  | 0, w => some w
  | steps + 1, w => (w.next? doc).bind (after? doc steps)

variable {doc : Document}

theorem after?_add {m n : Nat} {w : Walk} :
    after? doc (m + n) w = (after? doc m w).bind (after? doc n) := by
  induction m generalizing w with
  | zero => rw [Nat.zero_add, after?, Option.bind_some]
  | succ m ih =>
    rw [Nat.succ_add, after?, after?, Option.bind_assoc]
    congr 1
    funext w'
    exact ih

/-- When each waiting node can be visited with all that is below it before the walk goes on, they
can be visited one after the other. -/
theorem after?_visitAll {below : NodeId → List NodeId} {ids : List NodeId}
    (hids : ∀ k ∈ ids, ∀ found stack, after? doc ((below k).length + 1) ⟨found, k :: stack⟩ =
      some ⟨found ++ below k, stack⟩) (found stack : List NodeId) :
    after? doc ((ids.flatMap below).length + ids.length) ⟨found, ids ++ stack⟩ =
      some ⟨found ++ ids.flatMap below, stack⟩ := by
  induction ids generalizing found with
  | nil => simp [after?]
  | cons k ids ih =>
    rw [List.forall_mem_cons] at hids
    have hcount : ((k :: ids).flatMap below).length + (k :: ids).length =
        ((below k).length + 1) + ((ids.flatMap below).length + ids.length) := by
      simp only [List.flatMap_cons, List.length_append, List.length_cons]
      omega
    rw [hcount, after?_add, List.cons_append, hids.1, Option.bind_some, ih hids.2,
      List.flatMap_cons, List.append_assoc]

/-- A node is visited with all that is below it before the nodes that wait under it on the stack. -/
theorem after?_visit (h : doc.Coherent) {bound : Nat} {i : NodeId} (hi : i < doc.size)
    (hbound : doc.size ≤ i + bound) (found stack : List NodeId) :
    after? doc ((doc.descendantsWithin bound i).length + 1) ⟨found, i :: stack⟩ =
      some ⟨found ++ doc.descendantsWithin bound i, stack⟩ := by
  induction bound generalizing i found stack with
  | zero => exact absurd hi (Nat.not_lt_of_le hbound)
  | succ bound ih =>
    obtain ⟨n, hn⟩ := exists_get? hi
    have hbelow : doc.below i = n.below := by simp [below, hn]
    have hstep : next? doc ⟨found, i :: stack⟩ =
        some ⟨found ++ n.below, n.below.reverse ++ stack⟩ := by
      simp [next?, hn]
    have hchildren : ∀ k ∈ n.below.reverse, ∀ found stack,
        after? doc ((doc.descendantsWithin bound k).length + 1) ⟨found, k :: stack⟩ =
          some ⟨found ++ doc.descendantsWithin bound k, stack⟩ := by
      intro k hk found stack
      rw [List.mem_reverse, ← hbelow, h.mem_below] at hk
      have hik : i < k := h.parent_lt hk
      exact ih (lt_size_of_parent? hk) (Nat.le_trans hbound (Nat.add_lt_add_right hik bound)) found
        stack
    have hcount : (doc.descendantsWithin (bound + 1) i).length =
        (n.below.reverse.flatMap (doc.descendantsWithin bound)).length +
          n.below.reverse.length := by
      rw [descendantsWithin, hbelow, List.length_append, List.length_reverse, Nat.add_comm]
    rw [hcount, after?, hstep, Option.bind_some, after?_visitAll hchildren, descendantsWithin,
      hbelow, List.append_assoc]

end Walk

theorem Coherent.depth_lt_of_below {doc : Document} (h : doc.Coherent) {i j : NodeId}
    (hij : doc.Below i j) : doc.depth i < doc.depth j := by
  induction hij with
  | single hj =>
    rw [h.depth_of_parent hj]
    exact Nat.lt_succ_self _
  | tail _ hj ih =>
    rw [h.depth_of_parent hj]
    exact Nat.lt_succ_of_lt ih

/-- In a document built by hand, the walk from a node takes one step for the node and one for each
of its descendants, and ends with them listed. The descendants are the nodes whose chain of parents
goes through the node, each once, and they are deeper than the node. -/
theorem Built.descendants_exact {doc : Document} {attached : List NodeId}
    (h : doc.Built attached) {id : NodeId} (hid : id < doc.size) :
    Walk.after? doc ((doc.descendants id).length + 1) ⟨[], [id]⟩ = some ⟨doc.descendants id, []⟩ ∧
      (doc.descendants id).Nodup ∧ (∀ j, j ∈ doc.descendants id ↔ doc.Below id j) ∧
      ∀ j ∈ doc.descendants id, doc.depth id < doc.depth j := by
  obtain ⟨hdoc, -⟩ := h.coherent
  refine ⟨?_, hdoc.nodup_descendantsWithin _ _, fun j ↦ hdoc.mem_descendants, fun j hj ↦ ?_⟩
  · exact Walk.after?_visit hdoc hid (Nat.le_add_left _ _) [] []
  · exact hdoc.depth_lt_of_below (hdoc.mem_descendants.mp hj)

/-- An element with an attribute and a child, which has an attribute and a child in turn. They are
attached in another order than they are stored in, and the attributes after the children. -/
def disordered : Document :=
  let bare : Node := { raw := [], kind := .generic, line := 1 }
  let named : Node := { bare with kind := .attribute "title".toList [] false false }
  let stored := ((((({} : Document).alloc bare).alloc bare).alloc bare).alloc named).alloc named
  ((((stored.attach (some 1) 2).attach (some 0) 1).attach none 0).attach (some 1) 4).attach
    (some 0) 3

theorem Built.descendants_exact_disordered :
    Walk.after? disordered 5 ⟨[], [0]⟩ = some ⟨[3, 1, 4, 2], []⟩ ∧ disordered.Below 0 2 ∧
      disordered.depth 0 < disordered.depth 4 := by
  have hbuilt : disordered.Built [3, 4, 0, 1, 2] := by
    unfold disordered
    refine .attach (.attach (.attach (.attach (.attach (.alloc (.alloc (.alloc (.alloc (.alloc
      .empty ⟨rfl, rfl⟩) ⟨rfl, rfl⟩) ⟨rfl, rfl⟩) ⟨rfl, rfl⟩) ⟨rfl, rfl⟩)
      ?_ ?_ ?_) ?_ ?_ ?_) ?_ ?_ ?_) ?_ ?_ ?_) ?_ ?_ ?_
    all_goals simp
  have hlist : disordered.descendants 0 = [3, 1, 4, 2] := by decide
  have hroot : 0 < disordered.size := by decide
  obtain ⟨hwalk, -, hmem, hdepth⟩ := hbuilt.descendants_exact hroot
  rw [hlist] at hwalk hmem hdepth
  exact ⟨hwalk, (hmem 2).mp (by decide), hdepth 4 (by decide)⟩

end Document

end StyledMarkup
