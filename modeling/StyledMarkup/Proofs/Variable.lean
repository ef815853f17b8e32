import StyledMarkup.Variable

/-!
# What resolving leaves alone

Replacing tokens reads a text from left to right and changes nothing before the first dollar sign.
Resolving repeats it, so whatever a single replacement keeps is kept in the end.
-/

namespace StyledMarkup

namespace Token

variable (lookup : Text → Option Text)

theorem substitute_append_of_not_mem {front : Text} (h : '$' ∉ front) (rest : Text) :
    substitute lookup (front ++ rest) = front ++ substitute lookup rest := by
  induction front with
  | nil => rfl
  | cons c front ih =>
    have hc : c ≠ '$' := fun heq ↦ h (heq ▸ List.mem_cons_self)
    rw [List.cons_append, substitute_cons_of_ne lookup hc,
      ih fun hmem ↦ h (List.mem_cons_of_mem c hmem), List.cons_append]

theorem substitute_of_not_mem {t : Text} (h : '$' ∉ t) : substitute lookup t = t := by
  simpa using substitute_append_of_not_mem lookup h []

end Token

namespace Resolver

variable (r : Resolver)

/-- What holds of a text and is kept by every replacement holds of the resolved text. -/
theorem apply_induction {P : Text → Prop} {t : Text} (ht : P t)
    (hstep : ∀ (lookup : Text → Option Text) t, P t → P (Token.substitute lookup t)) :
    P (r.apply t) := by
  have hpass : ∀ t, P t → P (r.pass t) := fun t ht ↦ hstep _ _ (hstep _ _ ht)
  have hrepeat : ∀ rounds t, P t → P (r.repeatPass rounds t) := by
    intro rounds
    induction rounds with
    | zero => exact fun t ht ↦ ht
    | succ rounds ih =>
      intro t ht
      rw [repeatPass]
      split
      · exact ht
      · exact ih _ (hpass t ht)
  exact hrepeat _ _ (hpass t ht)

theorem apply_of_not_mem {t : Text} (h : '$' ∉ t) : r.apply t = t := by
  refine r.apply_induction (P := fun u ↦ u = t) rfl ?_
  rintro lookup u rfl
  exact Token.substitute_of_not_mem lookup h

end Resolver

end StyledMarkup
