import Mathlib.Logic.Relation
import StyledMarkup.Proofs.Document.Links

/-!
# What is below a node

When the lists of a document agree with the parents of its nodes, the descendants of a node are the
nodes whose chain of parents goes through it, each listed once.
-/

namespace StyledMarkup.Document

/-- The chain of parents of `j` goes through `i`. -/
def Below (doc : Document) : NodeId → NodeId → Prop :=
  Relation.TransGen fun i j ↦ doc.parent? j = some i

namespace Below

variable {doc : Document} {i j k : NodeId}

theorem of_parent (h : doc.parent? j = some i) : doc.Below i j :=
  Relation.TransGen.single h

theorem lt (hdoc : doc.Coherent) (h : doc.Below i j) : i < j := by
  induction h with
  | single hj => exact hdoc.parent_lt hj
  | tail _ hj ih => exact Nat.lt_trans ih (hdoc.parent_lt hj)

theorem lt_size (h : doc.Below i j) : j < doc.size := by
  cases h with
  | single hj => exact lt_size_of_parent? hj
  | tail _ hj => exact lt_size_of_parent? hj

theorem parent_cases (h : doc.Below i j) (hj : doc.parent? j = some k) : i = k ∨ doc.Below i k := by
  cases h with
  | single hi => exact Or.inl (Option.some.inj (hi.symm.trans hj))
  | tail hbelow hlast =>
    rw [Option.some.inj (hj.symm.trans hlast)]
    exact Or.inr hbelow

/-- Two nodes above the same node are on one chain. -/
theorem linear (hi : doc.Below i k) (hj : doc.Below j k) :
    i = j ∨ doc.Below i j ∨ doc.Below j i := by
  induction hi with
  | single hk =>
    rcases hj.parent_cases hk with rfl | hj
    · exact Or.inl rfl
    · exact Or.inr (Or.inr hj)
  | tail hbelow hk ih =>
    rcases hj.parent_cases hk with rfl | hj
    · exact Or.inr (Or.inl hbelow)
    · exact ih hj

end Below

namespace Coherent

variable {doc : Document} (h : doc.Coherent)
include h

theorem below_of_mem_descendantsWithin {bound : Nat} {i j : NodeId}
    (hj : j ∈ doc.descendantsWithin bound i) : doc.Below i j := by
  induction bound generalizing i with
  | zero => cases hj
  | succ bound ih =>
    rw [descendantsWithin, List.mem_append, List.mem_flatMap] at hj
    rcases hj with hj | ⟨k, hk, hj⟩
    · exact Below.of_parent (h.mem_below.mp hj)
    · exact Relation.TransGen.head (h.mem_below.mp (List.mem_reverse.mp hk)) (ih hj)

theorem mem_descendantsWithin {bound : Nat} {i j : NodeId} (hij : doc.Below i j)
    (hbound : j ≤ i + bound) : j ∈ doc.descendantsWithin bound i := by
  induction bound generalizing i with
  | zero => exact absurd (hij.lt h) (Nat.not_lt_of_le hbound)
  | succ bound ih =>
    rw [descendantsWithin, List.mem_append, List.mem_flatMap]
    rcases Relation.TransGen.head'_iff.mp hij with ⟨k, hk, hkj⟩
    rcases Relation.reflTransGen_iff_eq_or_transGen.mp hkj with rfl | hkj
    · exact Or.inl (h.mem_below.mpr hk)
    · refine Or.inr ⟨k, List.mem_reverse.mpr (h.mem_below.mpr hk), ih hkj ?_⟩
      have hlt : i + bound + 1 ≤ k + bound := Nat.add_lt_add_right (h.parent_lt hk) bound
      exact Nat.le_trans hbound hlt

theorem mem_descendants {i j : NodeId} : j ∈ doc.descendants i ↔ doc.Below i j := by
  constructor
  · exact h.below_of_mem_descendantsWithin
  · intro hij
    apply h.mem_descendantsWithin hij
    exact Nat.le_trans (Nat.le_of_lt hij.lt_size) (Nat.le_add_left _ _)

/-- Of two children of a node, neither is above the other. -/
theorem not_below_sibling {i j k : NodeId} (hj : doc.parent? j = some i)
    (hk : doc.parent? k = some i) : ¬doc.Below j k := by
  intro hjk
  rcases hjk.parent_cases hk with rfl | hji
  · exact Nat.lt_irrefl _ (h.parent_lt hj)
  · exact Nat.lt_asymm (h.parent_lt hj) (hji.lt h)

theorem nodup_descendantsWithin (bound : Nat) (i : NodeId) :
    (doc.descendantsWithin bound i).Nodup := by
  induction bound generalizing i with
  | zero => exact List.nodup_nil
  | succ bound ih =>
    rw [descendantsWithin, List.nodup_append, List.nodup_flatMap]
    refine ⟨h.nodup_below, ⟨fun k _ ↦ ih k, ?_⟩, ?_⟩
    · apply List.Pairwise.imp_of_mem _ (List.nodup_reverse.mpr h.nodup_below)
      intro k k' hk hk' hne j hj hj'
      have hk := h.mem_below.mp (List.mem_reverse.mp hk)
      have hk' := h.mem_below.mp (List.mem_reverse.mp hk')
      rcases (h.below_of_mem_descendantsWithin hj).linear (h.below_of_mem_descendantsWithin hj')
        with heq | hbelow | hbelow
      · exact hne heq
      · exact h.not_below_sibling hk hk' hbelow
      · exact h.not_below_sibling hk' hk hbelow
    · rintro j hj j' hj' rfl
      obtain ⟨k, hk, hkj⟩ := List.mem_flatMap.mp hj'
      have hk := h.mem_below.mp (List.mem_reverse.mp hk)
      rcases (h.below_of_mem_descendantsWithin hkj).parent_cases (h.mem_below.mp hj) with rfl | hki
      · exact Nat.lt_irrefl _ (h.parent_lt hk)
      · exact Nat.lt_asymm (h.parent_lt hk) (hki.lt h)

end Coherent

end StyledMarkup.Document
