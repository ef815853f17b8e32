import StyledMarkup.Compile
import StyledMarkup.Proofs.Document.WellFormed

/-!
# Rendering never fails

The markup keeps a stack of open elements, and the stylesheet moves each closing brace one level up.
Both are fine on trees whose blocks end in a closing brace: an element is taken off the stack by its
own brace, and the brace of any other block is too deep to take anything off. The trees of a parsed
document are of this kind, so that compiling fails exactly when parsing does.
-/

namespace StyledMarkup

/-- The tag of an element with this node is left open. -/
def Node.leavesOpen (n : Node) : Bool :=
  Text.endsWith (Text.trimEnd n.raw) '{'

/-! ## Closed trees -/

def Tree.node : Tree → Node
  | .mk n _ _ => n

/-- Every block of the tree ends in a closing brace, and the tree itself is none. -/
inductive Tree.Closed : Tree → Prop
  | leaf (n : Node) (attrs : List Node) (hclose : n.isBlockClose = false)
    (hopen : n.leavesOpen = true → n.isAttribute = true) : Closed (.mk n attrs [])
  | block (n : Node) (attrs : List Node) (before : List Tree) (c : Node) (cattrs : List Node)
    (hclose : n.isBlockClose = false) (hopen : n.leavesOpen = true)
    (hbefore : ∀ t ∈ before, t.Closed) (hc : c.isBlockClose = true) (hkind : c.kind = .generic)
    (hshown : c.suppressed = false) : Closed (.mk n attrs (before ++ [.mk c cattrs []]))

theorem Tree.Closed.node_not_close {t : Tree} (h : t.Closed) : t.node.isBlockClose = false := by
  cases h <;> assumption

namespace Markup

/-- No open element is at this depth or deeper. -/
def Progress.Above (p : Progress) (depth : Nat) : Prop :=
  ∀ e, p.openElements.head? = some e → e.depth < depth

theorem Progress.Above.mono {p p' : Progress} {depth : Nat} (h : p.Above depth)
    (heq : p'.openElements = p.openElements) : p'.Above depth := by
  intro e he
  rw [heq] at he
  exact h e he

theorem walkAll_append (r : Resolver) (depth : Nat) (p : Progress) (ts us : List Tree) :
    walkAll r depth p (ts ++ us) = walkAll r depth (walkAll r depth p ts) us := by
  induction ts generalizing p with
  | nil => rw [List.nil_append, walkAll]
  | cons t ts ih => rw [List.cons_append, walkAll, ih, walkAll]

theorem walkAll_openElements {r : Resolver} {ts : List Tree}
    (h : ∀ t ∈ ts, ∀ depth p, Progress.Above p depth →
      (walk r depth p t).openElements = p.openElements)
    (depth : Nat) (p : Progress) (hp : p.Above depth) :
    (walkAll r depth p ts).openElements = p.openElements := by
  induction ts generalizing p with
  | nil => rw [walkAll]
  | cons t ts ih =>
    have hwalk := h t List.mem_cons_self depth p hp
    rw [walkAll, ih (fun t' ht' ↦ h t' (List.mem_cons_of_mem t ht')) _ (hp.mono hwalk)]
    exact hwalk

theorem openElements_push (p : Progress) (depth : Nat) (t : Text) :
    (p.push depth t).openElements = p.openElements := rfl

theorem openElements_close (p : Progress) (depth : Nat) :
    (p.close depth).openElements =
      match p.openElements with
      | [] => []
      | top :: outer => if top.depth + 1 = depth then outer else top :: outer := by
  unfold Progress.close
  split
  · next h => rw [h]
  · next h =>
    dsimp only
    split
    · split <;> simp [openElements_push, *]
    · simp [*]

theorem openElements_statement (r : Resolver) (p : Progress) (depth : Nat) {n : Node}
    (h : n.isBlockClose = false) : (p.statement r depth n).openElements = p.openElements := by
  unfold Progress.statement
  rw [if_neg (by simp [h])]
  split
  · split <;> rfl
  · rfl

theorem openElements_element (p : Progress) (depth : Nat) (n : Node) (tag : Text)
    (attrs : List (Text × Text)) :
    (p.element depth n tag attrs).openElements =
      if n.leavesOpen then ⟨tag, depth, n.line⟩ :: p.openElements else p.openElements := by
  unfold Progress.element Node.leavesOpen
  split
  · rfl
  · split <;> rfl

theorem walk_brace (r : Resolver) (depth : Nat) (p : Progress) {c : Node} (cattrs : List Node)
    (hc : c.isBlockClose = true) (hkind : c.kind = .generic) (hshown : c.suppressed = false) :
    walk r depth p (.mk c cattrs []) = p.close depth := by
  rw [walk, if_neg (by simp [hshown]), hkind]
  simp only [walkAll, Progress.statement]
  rw [if_pos hc]

/-- A closed tree leaves the open elements as they were. -/
theorem walk_openElements (r : Resolver) {t : Tree} (h : t.Closed) :
    ∀ depth p, Progress.Above p depth → (walk r depth p t).openElements = p.openElements := by
  induction h with
  | leaf n attrs hclose hopen =>
    intro depth p _
    rw [walk]
    split
    · rfl
    · split
      · rfl
      · next tag classes hkind =>
        have hshut : n.leavesOpen = false := by
          apply Bool.eq_false_iff.mpr
          intro hleaves
          have hattr := hopen hleaves
          simp [Node.isAttribute, hkind] at hattr
        rw [walkAll, openElements_element, hshut]
        rfl
      · rw [walkAll, openElements_statement r p depth hclose]
  | block n attrs before c cattrs hclose hopen _ hc hkind hshown ih =>
    intro depth p hp
    have hbefore := walkAll_openElements ih
    rw [walk]
    split
    · rfl
    · split
      · rfl
      · next tag classes _ =>
        -- The element is on top of the stack when its brace comes.
        have helement := openElements_element p depth n tag (attributes r classes attrs)
        rw [if_pos hopen] at helement
        have habove : (p.element depth n tag (attributes r classes attrs)).Above (depth + 1) := by
          intro e he
          rw [helement, List.head?_cons] at he
          rw [← Option.some.inj he]
          exact Nat.lt_succ_self depth
        rw [walkAll_append, walkAll, walkAll, walk_brace r _ _ cattrs hc hkind hshown,
          openElements_close, hbefore _ _ habove, helement]
        simp
      · -- The brace is two levels below the innermost open element at least.
        have hstatement := openElements_statement r p depth hclose
        have habove : (p.statement r depth n).Above (depth + 1) := by
          intro e he
          rw [hstatement] at he
          exact Nat.lt_succ_of_lt (hp e he)
        rw [walkAll_append, walkAll, walkAll, walk_brace r _ _ cattrs hc hkind hshown,
          openElements_close, hbefore _ _ habove, hstatement]
        cases hstack : p.openElements with
        | nil => rfl
        | cons top outer =>
          have htop : top.depth < depth := hp top (by rw [hstack, List.head?_cons])
          dsimp only
          rw [if_neg (by omega)]

theorem render_ok (r : Resolver) {doc : Document} (h : ∀ t ∈ doc.forest, t.Closed) :
    ∃ text, render r doc = .ok text := by
  have hwalk := walkAll_openElements (fun t ht ↦ walk_openElements r (h t ht)) 0 {} (by
    intro e he
    cases he)
  unfold render
  dsimp only
  rw [hwalk]
  exact ⟨_, rfl⟩

end Markup

namespace Stylesheet

theorem line_ok (r : Resolver) (depth : Nat) {n : Node} (h : depth ≠ 0 ∨ n.isBlockClose = false) :
    ∃ t, line r depth n = .ok t := by
  unfold line
  split
  · next hclose =>
    cases depth with
    | zero =>
      rcases h with h | h
      · exact absurd rfl h
      · rw [h] at hclose
        cases hclose
    | succ level => exact ⟨_, rfl⟩
  · exact ⟨_, rfl⟩

mutual

/-- A closing brace can only go wrong outside every block. -/
theorem emit_ok (r : Resolver) (depth : Nat) :
    ∀ t : Tree, (depth ≠ 0 ∨ t.node.isBlockClose = false) → ∃ lines, emit r depth t = .ok lines
  | .mk n attrs children, h => by
    obtain ⟨own, hown⟩ : ∃ own, line r depth n = .ok own := line_ok r depth h
    obtain ⟨below, hbelow⟩ := emitAll_ok r (depth + 1) children
      fun _ _ ↦ Or.inl (Nat.succ_ne_zero depth)
    rw [emit]
    split
    · exact ⟨[], rfl⟩
    · rw [hown, hbelow]
      exact ⟨own :: below, rfl⟩

theorem emitAll_ok (r : Resolver) (depth : Nat) :
    ∀ ts : List Tree, (∀ t ∈ ts, depth ≠ 0 ∨ t.node.isBlockClose = false) →
      ∃ lines, emitAll r depth ts = .ok lines
  | [], _ => ⟨[], by rw [emitAll]⟩
  | t :: ts, h => by
    obtain ⟨first, hfirst⟩ := emit_ok r depth t (h t List.mem_cons_self)
    obtain ⟨more, hmore⟩ := emitAll_ok r depth ts fun t' ht' ↦ h t' (List.mem_cons_of_mem t ht')
    rw [emitAll, hfirst, hmore]
    exact ⟨first ++ more, rfl⟩

end

theorem render_ok (r : Resolver) {doc : Document} (h : ∀ t ∈ doc.forest, t.Closed) :
    ∃ text, render r doc = .ok text := by
  obtain ⟨lines, hlines⟩ := emitAll_ok r 0 doc.forest fun t ht ↦ Or.inr (h t ht).node_not_close
  rw [render, hlines]
  exact ⟨joinLines lines, rfl⟩

end Stylesheet

/-! ## The trees of a document -/

namespace Document

/-- What the trees of a document need. -/
structure Renderable (doc : Document) : Prop where
  children_lt : ∀ {i n}, doc.get? i = some n → ∀ j ∈ n.children, i < j ∧ j < doc.size
  leaf : ∀ {i n}, doc.get? i = some n → n.children = [] → n.leavesOpen = true →
    n.isAttribute = true
  block : ∀ {i n}, doc.get? i = some n → n.children ≠ [] → n.leavesOpen = true ∧
    ∃ before c m, n.children = before ++ [c] ∧
      (∀ j ∈ before, doc.has Node.isBlockClose j = false) ∧ doc.get? c = some m ∧
      m.isBlockClose = true ∧ m.kind = .generic ∧ m.suppressed = false ∧ m.children = []
  root : ∀ j ∈ doc.roots, doc.has Node.isBlockClose j = false

/-- A bound that is enough for a node is enough for its children, with one level less. -/
theorem Renderable.size_le_of_child {doc : Document} (h : doc.Renderable) {bound : Nat} {i : NodeId}
    (hbound : doc.size ≤ i + (bound + 1)) {n : Node} (hn : doc.get? i = some n) :
    ∀ j ∈ n.children, doc.size ≤ j + bound := by
  intro j hj
  have hlt : i + bound + 1 ≤ j + bound := Nat.add_lt_add_right (h.children_lt hn j hj).1 bound
  exact Nat.le_trans hbound hlt

theorem Renderable.closed {doc : Document} (h : doc.Renderable) {bound : Nat} {i : NodeId}
    (hbound : doc.size ≤ i + bound) (hi : doc.has Node.isBlockClose i = false) {t : Tree}
    (ht : doc.treeWithin bound i = some t) : t.Closed := by
  induction bound generalizing i t with
  | zero => cases ht
  | succ bound ih =>
    rw [treeWithin] at ht
    obtain ⟨n, hn, rfl⟩ := Option.map_eq_some_iff.mp ht
    rw [has_of_get? hn] at hi
    by_cases hchildren : n.children = []
    · rw [hchildren, List.filterMap_nil]
      exact .leaf n _ hi (h.leaf hn hchildren)
    · obtain ⟨hopen, before, c, m, hsplit, hbefore, hm, hclose, hkind, hshown, hnone⟩ :=
        h.block hn hchildren
      have hdeep := h.size_le_of_child hbound hn
      have hbrace : doc.treeWithin bound c = some (.mk m (m.attrs.filterMap doc.get?) []) := by
        have hc := hdeep c (by simp [hsplit])
        cases bound with
        | zero => exact absurd (lt_size_of_get? hm) (Nat.not_lt_of_le hc)
        | succ bound => simp [treeWithin, hm, hnone]
      rw [hsplit, List.filterMap_append, List.filterMap_cons, hbrace, List.filterMap_nil]
      refine .block n _ _ m _ hi hopen ?_ hclose hkind hshown
      intro t ht
      obtain ⟨j, hj, htree⟩ := List.mem_filterMap.mp ht
      exact ih (hdeep j (by simp [hsplit, hj])) (hbefore j hj) htree

theorem Renderable.forest {doc : Document} (h : doc.Renderable) : ∀ t ∈ doc.forest, t.Closed := by
  intro t ht
  obtain ⟨j, hj, htree⟩ := List.mem_filterMap.mp ht
  exact h.closed (Nat.le_add_left _ _) (h.root j hj) htree

/-! ## Suppressing declarations -/

theorem get?_suppressDeclarations (doc : Document) (i : NodeId) :
    doc.suppressDeclarations.get? i = (doc.get? i).map fun n ↦
      if n.declaration?.isSome then { n with suppressed := true } else n := by
  simp [get?, suppressDeclarations]

theorem has_suppressDeclarations {p : Node → Bool} (hp : ∀ n, p { n with suppressed := true } = p n)
    (doc : Document) (i : NodeId) : doc.suppressDeclarations.has p i = doc.has p i := by
  rw [has, has, get?_suppressDeclarations]
  cases doc.get? i with
  | none => rfl
  | some n =>
    simp only [Option.map_some, Option.any_some]
    split
    · exact hp n
    · rfl

theorem exists_of_suppressDeclarations {doc : Document} {i : NodeId} {n' : Node}
    (h : doc.suppressDeclarations.get? i = some n') :
    ∃ n, doc.get? i = some n ∧ n'.raw = n.raw ∧ n'.kind = n.kind ∧ n'.children = n.children := by
  rw [get?_suppressDeclarations] at h
  obtain ⟨n, hn, rfl⟩ := Option.map_eq_some_iff.mp h
  refine ⟨n, hn, ?_⟩
  split <;> exact ⟨rfl, rfl, rfl⟩

end Document

theorem Node.declaration?_of_brace {n : Node} (h : n.raw = ['}']) : n.declaration? = none := by
  unfold Node.declaration?
  split
  · rw [h]
    rfl
  · rfl

theorem Node.raw_of_isBlockClose {n : Node} (h : n.raw.IsTrimmed) (hclose : n.isBlockClose = true) :
    n.raw = ['}'] := by
  rw [Node.isBlockClose, h.trim_eq] at hclose
  exact eq_of_beq hclose

theorem Node.leavesOpen_of_isTrimmed {n : Node} (h : n.raw.IsTrimmed) :
    n.leavesOpen = n.isBlockOpen := by
  rw [Node.leavesOpen, h.trimEnd_eq, Node.isBlockOpen]

section Renderable

variable {b : Builder} (h : b.Sound) (hscopes : b.scopes = [])
include h

theorem Builder.Sound.raw_of_close {c : NodeId} {m : Node} (hm : b.doc.get? c = some m)
    (hclose : m.isBlockClose = true) : m.raw = ['}'] :=
  Node.raw_of_isBlockClose (h.doc_sound.trimmed c m hm) hclose

theorem Builder.Sound.leavesOpen_eq {i : NodeId} {n n' : Node} (hn : b.doc.get? i = some n)
    (hraw : n'.raw = n.raw) : n'.leavesOpen = n.isBlockOpen := by
  rw [← Node.leavesOpen_of_isTrimmed (h.doc_sound.trimmed i n hn), Node.leavesOpen, hraw,
    Node.leavesOpen]

include hscopes

theorem Builder.Sound.children_of_close {c : NodeId} {m : Node} (hm : b.doc.get? c = some m)
    (hclose : m.isBlockClose = true) : m.children = [] := by
  by_contra hchildren
  have hopen := ((h.wellFormed hscopes).below_closed hm (by simp [Node.below, hchildren])).1
  rw [Node.isBlockOpen, h.raw_of_close hm hclose] at hopen
  exact absurd hopen (by decide)

theorem Builder.Sound.renderable : b.doc.suppressDeclarations.Renderable := by
  have hlinked := h.doc_sound.linked
  refine ⟨?_, ?_, ?_, ?_⟩
  · intro i n' hn' j hj
    obtain ⟨n, hn, -, -, hchildren⟩ := Document.exists_of_suppressDeclarations hn'
    rw [hchildren] at hj
    have hparent := ((hlinked.mem_children hn).mp hj).1
    refine ⟨hlinked.parent_lt hparent, ?_⟩
    simpa [Document.size, Document.suppressDeclarations] using Document.lt_size_of_parent? hparent
  · intro i n' hn' hnil hleaves
    obtain ⟨n, hn, hraw, hkind, hchildren⟩ := Document.exists_of_suppressDeclarations hn'
    rw [Node.isAttribute, hkind]
    by_contra hattr
    rw [h.leavesOpen_eq hn hraw] at hleaves
    obtain ⟨c, -, hlast⟩ :=
      (h.wellFormed hscopes).block_closed hn (Bool.of_not_eq_true hattr) hleaves
    simp [← hchildren, hnil] at hlast
  · intro i n' hn' hne
    obtain ⟨n, hn, hraw, -, hchildren⟩ := Document.exists_of_suppressDeclarations hn'
    rw [hchildren] at hne ⊢
    obtain ⟨j, hj⟩ := List.exists_mem_of_ne_nil _ hne
    obtain ⟨hopen, before, c, hsplit, hclose, hbefore⟩ :=
      h.exists_brace hscopes hn (Or.inr ⟨j, ((hlinked.mem_children hn).mp hj).1⟩)
    obtain ⟨m, hm, hclose⟩ := Document.has_eq_true_iff.mp hclose
    obtain ⟨hkind, hshown, -⟩ := h.doc_sound.close c m hm hclose
    refine ⟨(h.leavesOpen_eq hn hraw).trans hopen, before, c, m, hsplit, ?_, ?_, hclose, hkind,
      hshown, h.children_of_close hscopes hm hclose⟩
    · intro j hj
      rw [Document.has_suppressDeclarations fun _ ↦ rfl]
      exact hbefore j hj
    · rw [Document.get?_suppressDeclarations, hm, Option.map_some,
        Node.declaration?_of_brace (h.raw_of_close hm hclose)]
      rfl
  · intro j hj
    rw [Document.has_suppressDeclarations fun _ ↦ rfl]
    exact (h.wellFormed hscopes).root_not_close j hj

end Renderable

/-! ## Compiling -/

namespace Compile

variable (load : Loader) (options : Options) (base : Path) (source : Text)

/-- A parsed document has both renderings, whatever its variables stand for. -/
theorem exists_renderings {settings : Settings} {base : Path} {source : Text} {doc : Document}
    (h : Document.parse settings base source = .ok doc) (r : Resolver) :
    (∃ t, Markup.render r doc.suppressDeclarations = .ok t) ∧
      ∃ t, Stylesheet.render r doc.suppressDeclarations = .ok t := by
  obtain ⟨b, hb, rfl, hscopes⟩ := exists_sound_of_parse h
  have hforest := (hb.renderable hscopes).forest
  exact ⟨Markup.render_ok r hforest, Stylesheet.render_ok r hforest⟩

theorem outcome :
    (∃ e, Document.parse ⟨load, options.maxImportDepth⟩ base source = .error e ∧
      both load options base source = .error (.parse e) ∧
      html load options base source = .error (.parse e) ∧
      css load options base source = .error (.parse e)) ∨
    ∃ doc out, Document.parse ⟨load, options.maxImportDepth⟩ base source = .ok doc ∧
      both load options base source = .ok out ∧ html load options base source = .ok out.html ∧
      css load options base source = .ok out.css := by
  cases hparse : Document.parse ⟨load, options.maxImportDepth⟩ base source with
  | error e =>
    have hprepare : prepare load options base source = .error (.parse e) := by
      simp only [prepare, hparse]
    refine Or.inl ⟨e, rfl, ?_, ?_, ?_⟩
    · rw [both, hprepare]
      rfl
    · rw [html, hprepare]
      rfl
    · rw [css, hprepare]
      rfl
  | ok doc =>
    obtain ⟨⟨markup, hmarkup⟩, stylesheet, hstylesheet⟩ :=
      exists_renderings hparse ⟨options.overrides, doc.bindings⟩
    have hprepare : prepare load options base source =
        .ok (doc.suppressDeclarations, ⟨options.overrides, doc.bindings⟩) := by
      simp only [prepare, hparse]
    refine Or.inr ⟨doc, ⟨markup, stylesheet⟩, rfl, ?_, ?_, ?_⟩
    · rw [both, hprepare]
      simp only [bind, Except.bind, hmarkup, hstylesheet]
      rfl
    · rw [html, hprepare]
      simp only [bind, Except.bind, hmarkup]
      rfl
    · rw [css, hprepare]
      simp only [bind, Except.bind, hstylesheet]
      rfl

/-- Compiling fails exactly when parsing does, and a document that is parsed is rendered. -/
theorem fails_only_in_parsing :
    (∀ doc, Document.parse ⟨load, options.maxImportDepth⟩ base source = .ok doc →
      ∀ r : Resolver, (∃ t, Markup.render r doc.suppressDeclarations = .ok t) ∧
        ∃ t, Stylesheet.render r doc.suppressDeclarations = .ok t) ∧
    (∀ e, both load options base source ≠ .error (.render e) ∧
      html load options base source ≠ .error (.render e) ∧
      css load options base source ≠ .error (.render e)) ∧
    (∀ e, (both load options base source = .error (.parse e) ↔
        Document.parse ⟨load, options.maxImportDepth⟩ base source = .error e) ∧
      (html load options base source = .error (.parse e) ↔
        Document.parse ⟨load, options.maxImportDepth⟩ base source = .error e) ∧
      (css load options base source = .error (.parse e) ↔
        Document.parse ⟨load, options.maxImportDepth⟩ base source = .error e)) ∧
    ∀ out, both load options base source = .ok out ↔
      html load options base source = .ok out.html ∧
        css load options base source = .ok out.css := by
  refine ⟨fun doc hdoc ↦ exists_renderings hdoc, ?_, ?_, ?_⟩
  · intro e
    rcases outcome load options base source with ⟨e', -, hboth, hhtml, hcss⟩ |
      ⟨doc, out, -, hboth, hhtml, hcss⟩ <;> simp [hboth, hhtml, hcss]
  · intro e
    rcases outcome load options base source with ⟨e', hparse, hboth, hhtml, hcss⟩ |
      ⟨doc, out, hparse, hboth, hhtml, hcss⟩ <;> simp [hparse, hboth, hhtml, hcss]
  · rintro ⟨markup, stylesheet⟩
    rcases outcome load options base source with ⟨e', -, hboth, hhtml, hcss⟩ |
      ⟨doc, ⟨markup', stylesheet'⟩, -, hboth, hhtml, hcss⟩ <;> simp [hboth, hhtml, hcss]

end Compile

end StyledMarkup
