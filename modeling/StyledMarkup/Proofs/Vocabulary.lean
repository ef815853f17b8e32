import StyledMarkup.Classification

/-!
# The spelling of names

Every tag of the vocabulary is made of letters and digits, and every attribute of characters that
the reader of declarations takes for a part of the name.
-/

namespace StyledMarkup

namespace Vocabulary

/-- The characters of a literal are taken as they are written, without going through its bytes. -/
theorem all_toList_ofList {p : Char → Bool} {t : Text} (h : t.all p = true) :
    (String.ofList t).toList.all p = true := by
  rw [String.toList_ofList, h]

theorem isAlphanum_of_isTag {tag : Text} (h : isTag tag = true) :
    ∀ c ∈ tag, c.isAlphanum = true := by
  have hall : ∀ tag ∈ tags, tag.all Char.isAlphanum = true := by
    simp only [tags, List.forall_mem_map, List.forall_mem_cons, List.not_mem_nil, false_imp_iff,
      implies_true, and_true]
    and_intros
    all_goals exact all_toList_ofList rfl
  exact List.all_eq_true.mp (hall tag (List.contains_iff_mem.mp h))

theorem isAttributeChar_of_allowed {name : Text} {scope : Scope}
    (h : Classification.allowed name scope = true) :
    ∀ c ∈ name, Classification.isAttributeChar c = true := by
  have hglobal : ∀ name ∈ globalAttributes ++ eventAttributes ++ ariaAttributes,
      name.all Classification.isAttributeChar = true := by
    simp only [globalAttributes, eventAttributes, ariaAttributes, List.forall_mem_append,
      List.forall_mem_map, List.forall_mem_cons, List.not_mem_nil, false_imp_iff, implies_true,
      and_true]
    and_intros
    all_goals exact all_toList_ofList rfl
  have hrows : ∀ row ∈ elementTable, ∀ name ∈ row.2,
      name.all Classification.isAttributeChar = true := by
    simp only [elementTable, elementRows, List.forall_mem_map, List.forall_mem_cons,
      List.not_mem_nil, false_imp_iff, implies_true, and_true]
    and_intros
    all_goals exact all_toList_ofList rfl
  have hany : isElementAttribute name = true →
      name.all Classification.isAttributeChar = true := by
    intro hname
    obtain ⟨row, hrow, hmem⟩ := List.any_eq_true.mp hname
    exact hrows row hrow name (List.contains_iff_mem.mp hmem)
  apply List.all_eq_true.mp
  rw [Classification.allowed.eq_def, Bool.or_eq_true] at h
  rcases h with h | h
  · apply hglobal
    simp only [isGlobal, isEvent, Bool.or_eq_true, List.contains_iff_mem] at h
    simpa [or_assoc] using h
  · cases scope with
    | root => exact hany h
    | mixin => exact hany h
    | block => cases h
    | element tag =>
      rw [List.contains_iff_mem, elementAttributes] at h
      split at h
      · next row hrow => exact hrows row (List.mem_of_find?_eq_some hrow) name h
      · cases h

theorem isEvent_title : isEvent "title".toList = false := by
  rw [isEvent, eventAttributes, Bool.eq_false_iff, ne_eq, List.contains_iff_mem, List.mem_map]
  rintro ⟨name, hname, htitle⟩
  rw [String.toList_inj.mp htitle] at hname
  exact absurd hname (by decide)

theorem allowed_title (scope : Scope) : Classification.allowed "title".toList scope = true := by
  have hglobal : globalAttributes.contains "title".toList = true := by
    rw [List.contains_iff_mem, globalAttributes]
    exact List.mem_map_of_mem (by decide)
  rw [Classification.allowed.eq_def, isGlobal, hglobal]
  rfl

end Vocabulary

end StyledMarkup
