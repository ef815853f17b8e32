import StyledMarkup.Proofs.Builder.Log

/-!
# The order of nodes

The numbers of a document that is built from statements follow the nesting of its blocks: what is
numbered between a node and one of its descendants is below that node as well. So a walk over the
forest, each node before its children, meets the nodes in increasing order.

`Document.depth` counts the steps to a root. Here it is shown to grow by one from parent to child,
whatever bound the chain of ancestors was cut at.
-/

namespace StyledMarkup

namespace Document

/-! ## Numbers and nesting -/

/-- What is numbered between a node and a child of it is below the node. -/
def Nested (doc : Document) : Prop :=
  ∀ ⦃i j k : NodeId⦄, doc.parent? j = some i → i < k → k < j → doc.Below i k

section Nested

variable {doc : Document} {i j k : NodeId}

theorem Nested.below (h : doc.Nested) (hij : doc.Below i j) (hik : i < k) (hkj : k < j) :
    doc.Below i k := by
  induction hij with
  | single hj => exact h hj hik hkj
  | @tail p j hip hj ih =>
    rcases Nat.lt_trichotomy k p with hkp | rfl | hpk
    · exact ih hkp
    · exact hip
    · exact hip.trans (h hj hpk hkj)

/-- The node is `i` or below it. -/
def Within (doc : Document) (i j : NodeId) : Prop :=
  i = j ∨ doc.Below i j

theorem Within.of_child {c : NodeId} (hc : doc.parent? c = some i) (h : doc.Within c j) :
    doc.Below i j := by
  rcases h with rfl | h
  · exact .of_parent hc
  · exact Relation.TransGen.head hc h

theorem Within.le (hdoc : doc.Linked) (h : doc.Within i j) : i ≤ j := by
  rcases h with rfl | h
  · exact Nat.le_refl i
  · exact Nat.le_of_lt (h.lt hdoc.coherent)

/-- Of two nodes with nothing in common, all that is below the earlier one comes first. -/
theorem Nested.lt_of_within (h : doc.Nested) (hdoc : doc.Linked) {a b : NodeId} (hab : a < b)
    (hnot : ¬doc.Below a b) (hi : doc.Within a i) (hj : doc.Within b j) : i < j := by
  refine Nat.lt_of_lt_of_le ?_ (hj.le hdoc)
  rcases hi with rfl | hi
  · exact hab
  · by_contra hbi
    rcases Nat.eq_or_lt_of_le (Nat.le_of_not_lt hbi) with rfl | hbi
    · exact hnot hi
    · exact hnot (h.below hi hab hbi)

theorem not_below_of_root {a b : NodeId} (hb : doc.parent? b = none) : ¬doc.Below a b := by
  intro hab
  cases hab with
  | single hab => simp [hb] at hab
  | tail _ hab => simp [hb] at hab

theorem Linked.exists_root (hdoc : doc.Linked) (hj : j < doc.size) :
    ∃ i ∈ doc.roots, doc.Within i j := by
  induction j using Nat.strong_induction_on with
  | _ j ih =>
    cases hp : doc.parent? j with
    | none => exact ⟨j, hdoc.mem_roots.mpr ⟨hj, hp⟩, Or.inl rfl⟩
    | some p =>
      have hpj : p < j := hdoc.parent_lt hp
      obtain ⟨i, hi, hip⟩ := ih p hpj (Nat.lt_trans hpj hj)
      refine ⟨i, hi, Or.inr ?_⟩
      rcases hip with rfl | hip
      · exact .of_parent hp
      · exact hip.tail hp

end Nested

/-! ## Ancestors -/

section Ancestors

variable {doc : Document} {j : NodeId}

theorem ancestorsWithin_of_root (hj : doc.parent? j = none) (bound : Nat) :
    doc.ancestorsWithin bound j = [] := by
  cases bound with
  | zero => rfl
  | succ bound =>
    rw [parent?] at hj
    rw [ancestorsWithin, hj]

theorem ancestorsWithin_of_parent {p : NodeId} (hj : doc.parent? j = some p) (bound : Nat) :
    doc.ancestorsWithin (bound + 1) j = p :: doc.ancestorsWithin bound p := by
  rw [parent?] at hj
  rw [ancestorsWithin, hj]

/-- A bound that no chain can reach does not matter. -/
theorem Coherent.ancestorsWithin_succ (h : doc.Coherent) {bound : Nat} (hj : j ≤ bound) :
    doc.ancestorsWithin (bound + 1) j = doc.ancestorsWithin bound j := by
  induction bound generalizing j with
  | zero =>
    have hroot : doc.parent? j = none := by
      apply Option.eq_none_iff_forall_ne_some.mpr
      intro p hp
      exact Nat.not_lt_zero p (Nat.lt_of_lt_of_le (h.parent_lt hp) hj)
    rw [ancestorsWithin_of_root hroot, ancestorsWithin_of_root hroot]
  | succ bound ih =>
    cases hp : doc.parent? j with
    | none => rw [ancestorsWithin_of_root hp, ancestorsWithin_of_root hp]
    | some p =>
      have hlt : p < bound + 1 := Nat.lt_of_lt_of_le (h.parent_lt hp) hj
      rw [ancestorsWithin_of_parent hp, ancestorsWithin_of_parent hp, ih (Nat.le_of_lt_succ hlt)]

theorem Coherent.ancestors_of_parent (h : doc.Coherent) {p : NodeId} (hj : doc.parent? j = some p) :
    doc.ancestorsWithin doc.size j = p :: doc.ancestorsWithin doc.size p := by
  have hlt : p < j := h.parent_lt hj
  have hsize := lt_size_of_parent? hj
  obtain ⟨bound, hbound⟩ : ∃ bound, doc.size = bound + 1 := Nat.exists_eq_succ_of_ne_zero (by
    intro hzero
    exact Nat.not_lt_zero j (hzero ▸ hsize))
  rw [hbound] at hsize ⊢
  have hle : p ≤ bound := Nat.le_trans (Nat.le_of_lt hlt) (Nat.le_of_lt_succ hsize)
  rw [ancestorsWithin_of_parent hj, h.ancestorsWithin_succ hle]

theorem depth_of_root (hj : doc.parent? j = none) : doc.depth j = 0 := by
  rw [depth, ancestorsWithin_of_root hj, List.length_nil]

theorem Coherent.depth_of_parent (h : doc.Coherent) {p : NodeId} (hj : doc.parent? j = some p) :
    doc.depth j = doc.depth p + 1 := by
  rw [depth, depth, h.ancestors_of_parent hj, List.length_cons]

end Ancestors

end Document

/-- While a block is open, everything that is fed goes below it. -/
theorem Recorded.nested {log : List Fed} {b : Builder} (hrec : Recorded log b)
    (hlinked : b.doc.Linked) : b.doc.Nested := by
  intro i j k hj hik hkj
  have hsize := Document.lt_size_of_parent? hj
  rw [hrec.size] at hsize
  obtain ⟨front, f, back, rfl, hadds, rfl⟩ := Fed.exists_split hsize
  -- The block is still open when the child is fed, so what follows its header is balanced.
  obtain ⟨outer, hopen⟩ := List.head?_eq_some_iff.mp ((hrec.parents _ _ _ rfl hadds).symm.trans hj)
  obtain ⟨before, header, body, rfl, hopens, hbody, rfl, -⟩ := Fed.exists_header hopen
  induction k using Nat.strong_induction_on with
  | _ k ih =>
    have hlt : k - ((Fed.kept before).length + 1) < (Fed.kept body).length := by
      rw [Fed.kept_append, Fed.kept_cons_of_addsNode (Role.addsNode_of_opens hopens),
        List.length_append, List.length_cons] at hkj
      have hkj : k < _ := hkj
      have hik : _ < k := hik
      omega
    obtain ⟨inner, g, rest, rfl, hg, hcount⟩ := Fed.exists_split hlt
    have hlog : before ++ header :: (inner ++ g :: rest) ++ f :: back =
        before ++ header :: (inner ++ g :: (rest ++ f :: back)) := by simp
    obtain ⟨p, hp, hle⟩ :=
      hrec.parent_of_isPrefix hlog hopens hbody (List.prefix_append _ _) hg
    rw [hcount, Nat.add_sub_cancel' hik] at hp
    have hpk : p < k := hlinked.parent_lt hp
    rcases Nat.eq_or_lt_of_le hle with rfl | hlt
    · exact .of_parent hp
    · exact (ih p hpk (Nat.lt_trans hpk hkj) hlt).tail hp

end StyledMarkup
