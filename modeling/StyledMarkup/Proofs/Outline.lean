import StyledMarkup.Proofs.Document.Abridged
import StyledMarkup.Proofs.Markup.Structure

/-!
# Renderings of an outline

Both renderings read nothing of a document but its outline, as long as what is left out gives no
output: for the stylesheet it has to be hidden, for the markup it has to be a statement without
markup. Of the variables they read nothing but what texts are resolved to. The lines of the source
show up in errors only.
-/

namespace StyledMarkup

theorem Except.toOption_bind {ε α β : Type} (x : Except ε α) (f : α → Except ε β) :
    (x >>= f).toOption = x.toOption.bind fun a ↦ (f a).toOption := by
  cases x <;> rfl

theorem Except.eq_ok_iff_of_toOption {ε α : Type} {x y : Except ε α}
    (h : x.toOption = y.toOption) (a : α) : x = .ok a ↔ y = .ok a := by
  cases x <;> cases y <;> simp_all [Except.toOption]

section Resolvers

variable {o : Omission} {r r' : Resolver}

/-! ## The stylesheet -/

namespace Stylesheet

theorem toOption_line_bare (hr : ∀ t, r.apply t = r'.apply t) (depth : Nat) (n : Node) :
    (line r depth n).toOption = (line r' depth n.bare).toOption := by
  unfold line
  rw [hr]
  change _ = Except.toOption (if n.isBlockClose then _ else _)
  split
  · cases depth <;> rfl
  · rfl

mutual

theorem toOption_emit_outline (hr : ∀ t, r.apply t = r'.apply t) (depth : Nat) : ∀ t : Tree,
    t.Everywhere (fun n ↦ o.drops n = true → isHidden n = true) →
      (emit r depth t).toOption = (emit r' depth (t.outline o)).toOption
  | .mk n attrs children, h => by
    have hchildren := toOption_emitAll_outline hr (depth + 1) children fun t ht ↦ h.child ht
    rw [Tree.outline, emit, emit]
    change _ = Except.toOption (if isHidden n then _ else _)
    split
    · rfl
    · rw [Except.toOption_bind, Except.toOption_bind, toOption_line_bare hr]
      simp only [Except.toOption_bind, hchildren]

theorem toOption_emitAll_outline (hr : ∀ t, r.apply t = r'.apply t) (depth : Nat) :
    ∀ ts : List Tree, (∀ t ∈ ts, t.Everywhere fun n ↦ o.drops n = true → isHidden n = true) →
      (emitAll r depth ts).toOption = (emitAll r' depth (Tree.outlineAll o ts)).toOption
  | [], _ => by
    rw [Tree.outlineAll, emitAll, emitAll]
  | t :: ts, h => by
    have hrest := toOption_emitAll_outline hr depth ts
      fun t' ht' ↦ h t' (List.mem_cons_of_mem t ht')
    have hfirst := toOption_emit_outline hr depth t (h t List.mem_cons_self)
    rw [Tree.outlineAll, emitAll, Except.toOption_bind]
    by_cases hspare : t.isSpare o = true
    · have hnone : emit r depth t = .ok [] := by
        obtain ⟨n, attrs, children⟩ := t
        rw [Tree.isSpare, Bool.and_eq_true] at hspare
        rw [emit, if_pos ((h _ List.mem_cons_self).node hspare.1)]
      rw [if_pos hspare, hnone, ← hrest]
      cases emitAll r depth ts <;> rfl
    · rw [if_neg hspare, emitAll, Except.toOption_bind, hfirst]
      simp only [Except.toOption_bind, hrest]

end

theorem toOption_render_eq (hr : ∀ t, r.apply t = r'.apply t) {doc doc' : Document}
    (hdoc : ∀ i n, doc.get? i = some n → o.drops n = true → isHidden n = true)
    (hdoc' : ∀ i n, doc'.get? i = some n → o.drops n = true → isHidden n = true)
    (houtline : Tree.outlineAll o doc.forest = Tree.outlineAll o doc'.forest) :
    (render r doc).toOption = (render r' doc').toOption := by
  have hforest : ∀ {doc : Document}, (∀ i n, doc.get? i = some n → o.drops n = true →
      isHidden n = true) → ∀ t ∈ doc.forest,
        t.Everywhere fun n ↦ o.drops n = true → isHidden n = true := by
    intro doc hdoc t ht
    obtain ⟨i, -, htree⟩ := List.mem_filterMap.mp ht
    exact Document.everywhere_treeWithin hdoc htree
  rw [render, render, Except.toOption_bind, Except.toOption_bind,
    toOption_emitAll_outline hr 0 doc.forest (hforest hdoc), houtline,
    ← toOption_emitAll_outline (fun _ ↦ rfl) 0 doc'.forest (hforest hdoc')]

end Stylesheet

/-! ## The markup -/

/-- What is left out gives no markup. -/
def Omission.Silent (o : Omission) : Prop :=
  ∀ n : Node, o.drops n = true →
    n.kind = .generic ∧ n.isBlockClose = false ∧ Classification.isTextMarker n.raw = false

namespace Markup

theorem attributes_outline (hr : ∀ t, r.apply t = r'.apply t) (ho : o.Silent)
    (classes : Option Text) (attrs : List Node) :
    attributes r classes attrs =
      attributes r' classes ((attrs.filter fun a ↦ !o.drops a).map Node.bare) := by
  have hdeclare : ∀ acc a, declare r acc a = if !o.drops a then declare r' acc a.bare else acc := by
    intro acc a
    cases hdrops : o.drops a with
    | true => simp [declare, (ho a hdrops).1]
    | false =>
      simp only [declare, hr]
      rfl
  unfold attributes
  rw [List.foldl_map, List.foldl_filter, funext₂ hdeclare]
  simp only [hr]

namespace Progress

/-- The progress without the lines of the open elements. -/
def bare (p : Progress) : Progress :=
  { p with openElements := p.openElements.map fun e ↦ { e with line := 0 } }

theorem bare_element (p : Progress) (depth : Nat) (n : Node) (tag : Text)
    (attrs : List (Text × Text)) :
    (p.element depth n tag attrs).bare = p.bare.element depth n.bare tag attrs := by
  unfold element
  change _ = if Text.endsWith (Text.trimEnd n.raw) '{' then _ else _
  split
  · rfl
  · split <;> rfl

theorem bare_close (p : Progress) (depth : Nat) : (p.close depth).bare = p.bare.close depth := by
  obtain ⟨lines, openElements⟩ := p
  cases openElements with
  | nil => rfl
  | cons top outer =>
    simp only [close, bare, List.map_cons]
    split
    · split <;> rfl
    · rfl

theorem bare_statement (hr : ∀ t, r.apply t = r'.apply t) (p : Progress) (depth : Nat) (n : Node) :
    (p.statement r depth n).bare = p.bare.statement r' depth n.bare := by
  have hclose : n.bare.isBlockClose = n.isBlockClose := rfl
  have hraw : n.bare.raw = n.raw := rfl
  unfold statement
  rw [hr, hclose, hraw]
  split
  · exact p.bare_close depth
  · split
    · cases Classification.textContent? (r'.apply n.raw) <;> rfl
    · rfl

end Progress

theorem walk_spare (ho : o.Silent) (depth : Nat) (p : Progress) {t : Tree}
    (h : t.isSpare o = true) : walk r depth p t = p := by
  obtain ⟨n, attrs, children⟩ := t
  rw [Tree.isSpare, Bool.and_eq_true, List.isEmpty_iff] at h
  obtain ⟨hdrops, rfl⟩ := h
  obtain ⟨hkind, hclose, hmarker⟩ := ho n hdrops
  rw [walk, hkind, walkAll]
  simp [Progress.statement, hclose, hmarker]

mutual

theorem walk_outline (hr : ∀ t, r.apply t = r'.apply t) (ho : o.Silent) (depth : Nat)
    (p : Progress) : ∀ t : Tree,
      (walk r depth p t).bare = walk r' depth p.bare (t.outline o)
  | .mk n attrs children => by
    rw [Tree.outline]
    cases part n with
    | hidden hhidden =>
      rw [(walk_hidden r depth p attrs children hhidden).1,
        (walk_hidden (n := n.bare) r' depth p.bare _ _ hhidden).1]
    | element tag classes hshown hkind =>
      rw [walk_element r depth p attrs children hshown hkind,
        walk_element (n := n.bare) r' depth p.bare _ _ hshown hkind, walkAll_outline hr ho,
        Progress.bare_element, attributes_outline hr ho]
    | statement hshown hkind =>
      rw [walk_statement r depth p attrs children hkind hshown,
        walk_statement (n := n.bare) r' depth p.bare _ _ hkind hshown, walkAll_outline hr ho,
        Progress.bare_statement hr]

theorem walkAll_outline (hr : ∀ t, r.apply t = r'.apply t) (ho : o.Silent) (depth : Nat)
    (p : Progress) : ∀ ts : List Tree,
      (walkAll r depth p ts).bare = walkAll r' depth p.bare (Tree.outlineAll o ts)
  | [] => by
    rw [Tree.outlineAll, walkAll, walkAll]
  | t :: ts => by
    rw [Tree.outlineAll, walkAll, walkAll_outline hr ho]
    split
    · next hspare => rw [walk_spare ho depth p hspare]
    · rw [walkAll, walk_outline hr ho]

end

theorem toOption_render_eq (hr : ∀ t, r.apply t = r'.apply t) (ho : o.Silent) {doc doc' : Document}
    (houtline : Tree.outlineAll o doc.forest = Tree.outlineAll o doc'.forest) :
    (render r doc).toOption = (render r' doc').toOption := by
  have hbare : (walkAll r 0 {} doc.forest).bare = (walkAll r' 0 {} doc'.forest).bare := by
    rw [walkAll_outline hr ho, walkAll_outline (fun _ ↦ rfl) ho, houtline]
  have houtcome : ∀ (r : Resolver) (doc : Document), (render r doc).toOption =
      if (walkAll r 0 {} doc.forest).bare.openElements.isEmpty then
        some (joinLines (walkAll r 0 {} doc.forest).bare.lines.reverse)
      else none := by
    intro r doc
    unfold render
    simp only [Progress.bare, List.isEmpty_map]
    cases (walkAll r 0 {} doc.forest).openElements <;> rfl
  rw [houtcome, houtcome, hbare]

end Markup

end Resolvers

end StyledMarkup
