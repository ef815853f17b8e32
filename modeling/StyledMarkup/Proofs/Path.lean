import StyledMarkup.Proofs.Text
import StyledMarkup.Path

/-!
# Paths seen from a directory

Dots in front of a path are the only components that normalizing drops without looking at what
stands before them. Without these, the components of a joined path are those of the directory
followed by those of the relative path. So where a path leads to from a directory depends on the
components of the directory only, and not on how the directory is written.
-/

namespace StyledMarkup.Path

/-- The components of a path that take part in normalizing. -/
def steps (p : Path) : List Component :=
  p.components.filter (· ≠ .current)

theorem foldl_filter_current {f : List Component → Component → List Component}
    (hf : ∀ kept, f kept .current = kept) (kept components : List Component) :
    (components.filter (· ≠ .current)).foldl f kept = components.foldl f kept := by
  rw [List.foldl_filter]
  congr 1
  funext kept c
  split
  · rfl
  · next hc =>
    obtain rfl : c = .current := by simpa using hc
    exact (hf kept).symm

theorem normalize_eq (p : Path) : p.normalize = ofComponents (p.steps.foldl keep []).reverse := by
  rw [normalize, normalComponents, steps, foldl_filter_current fun _ ↦ rfl]

/-! ## Segments -/

/-- What the segments of a text say. -/
def segmentSteps (t : Text) : List Component :=
  (t.splitOn '/').filterMap segment?

theorem segment?_ne_current (segment : Text) : segment? segment ≠ some .current := by
  unfold segment?
  split
  · simp
  · split <;> simp

theorem filter_segmentSteps (t : Text) :
    (segmentSteps t).filter (· ≠ .current) = segmentSteps t := by
  rw [List.filter_eq_self]
  intro c hc
  obtain ⟨segment, -, hsegment⟩ := List.mem_filterMap.mp hc
  have hne : c ≠ .current := by
    rintro rfl
    exact segment?_ne_current segment hsegment
  simpa using hne

theorem segmentSteps_append (t u : Text) :
    segmentSteps (t ++ '/' :: u) = segmentSteps t ++ segmentSteps u := by
  rw [segmentSteps, List.splitOn_append_cons_self, List.filterMap_append]
  rfl

theorem segmentSteps_nil : segmentSteps [] = [] := rfl

theorem segmentSteps_slash (t : Text) : segmentSteps ('/' :: t) = segmentSteps t :=
  segmentSteps_append [] t

/-- The root, when the path starts there. -/
def rootStep (t : Text) : List Component :=
  if t.head? = some '/' then [.root] else []

theorem steps_eq (p : Path) : p.steps = rootStep p.text ++ segmentSteps p.text := by
  have hcomponents : p.components = p.lead.1.toList ++ segmentSteps p.lead.2 := rfl
  rw [steps, hcomponents, List.filter_append, filter_segmentSteps]
  unfold lead
  split
  · next rest htext =>
    rw [htext, segmentSteps_slash]
    rfl
  · next htext =>
    rw [htext]
    rfl
  · next rest htext =>
    have hdot : segmentSteps ('.' :: '/' :: rest) = segmentSteps rest :=
      segmentSteps_append ['.'] rest
    rw [htext, segmentSteps_slash, hdot]
    rfl
  · next hroot _ _ =>
    have hhead : p.text.head? ≠ some '/' := by
      intro hslash
      obtain ⟨rest, hrest⟩ := List.head?_eq_some_iff.mp hslash
      exact hroot rest hrest
    rw [rootStep, if_neg hhead]
    rfl

/-! ## Joining -/

theorem steps_join {p q : Path} (hq : q.isAbsolute = false) :
    (p.join q).steps = p.steps ++ segmentSteps q.text := by
  have hrelative : q.text.head? ≠ some '/' := by
    simpa [isAbsolute] using hq
  rw [steps_eq, steps_eq, join, if_neg (by simp [hq])]
  split
  · next hplain =>
    rcases hplain with hnil | hslash
    · rw [hnil, List.nil_append, rootStep, if_neg hrelative]
      rfl
    · obtain ⟨front, hfront⟩ := Text.endsWith_iff.mp hslash
      have hhead : (front ++ '/' :: q.text).head? = (front ++ ['/']).head? := by
        cases front <;> rfl
      have hsteps : segmentSteps (front ++ ['/']) = segmentSteps front := by
        rw [segmentSteps_append, segmentSteps_nil, List.append_nil]
      have htext : p.text ++ q.text = front ++ '/' :: q.text := by
        rw [hfront, List.append_assoc, List.singleton_append]
      rw [htext, hfront, rootStep, rootStep, hhead, segmentSteps_append, hsteps, List.append_assoc]
  · next hplain =>
    have hne : p.text ≠ [] := fun hnil ↦ hplain (Or.inl hnil)
    have hhead : (p.text ++ '/' :: q.text).head? = p.text.head? := by
      obtain ⟨c, rest, htext⟩ := List.exists_cons_of_ne_nil hne
      rw [htext]
      rfl
    rw [rootStep, rootStep, hhead, segmentSteps_append, List.append_assoc]

/-- Two spellings of a directory lead to the same files. -/
theorem normalize_join_congr {p p' : Path} (h : p'.components = p.components) (q : Path) :
    (p'.join q).normalize = (p.join q).normalize := by
  cases hq : q.isAbsolute with
  | true => simp [join, hq]
  | false =>
    have hsteps : p'.steps = p.steps := by
      rw [steps, steps, h]
    rw [normalize_eq, normalize_eq, steps_join hq, steps_join hq, hsteps]

end StyledMarkup.Path
