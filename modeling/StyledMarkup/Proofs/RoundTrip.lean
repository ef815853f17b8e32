import StyledMarkup.Proofs.Builder.Declaration
import StyledMarkup.Proofs.Markup.Attributes
import StyledMarkup.Proofs.Markup.Structure
import StyledMarkup.Proofs.Statement.Lines

/-!
# Attributes from source to markup

An element is written as an opener, one declaration a line for its attributes, and a closing brace.
Values are quoted, so they can be any text. Compiling such a source gives the element with exactly
these attributes as markup, and a stylesheet of just the opener and the brace.
-/

namespace StyledMarkup

namespace Scan

theorem isPlain_of_isAttributeChar {c : Char} (h : Classification.isAttributeChar c = true) :
    isPlain c = true := by
  rw [isPlain, Bool.not_eq_true', Bool.eq_false_iff]
  intro hspecial
  have hmem := List.contains_iff_mem.mp hspecial
  simp only [List.mem_cons, List.not_mem_nil, or_false] at hmem
  rcases hmem with rfl | rfl | rfl | rfl | rfl | rfl | rfl <;> exact absurd h (by decide)

end Scan

/-! ## A written element -/

structure Element where
  tag : Text
  attrs : List (Text × Text)
  deriving DecidableEq, Repr

namespace Element

/-- The line that declares an attribute. -/
def declaration (attr : Text × Text) : Text :=
  "--".toList ++ attr.1 ++ ": ".toList ++ Value.quote attr.2 ++ [';']

def opener (e : Element) : Text :=
  e.tag ++ " \x7b".toList

def lines (e : Element) : List Text :=
  e.opener :: (e.attrs.map declaration ++ [['}']])

/-- An attribute in markup: its value has no double quotes of its own. -/
def attributeMarkup (attr : Text × Text) : Text :=
  ' ' :: attr.1 ++ "=\"".toList ++
    (attr.2.flatMap fun c ↦ if c = '"' then "&quot;".toList else [c]) ++ ['"']

/-- The lines of the element in markup: its opening tag and, unless it is void, its closing tag. -/
def markup (e : Element) : List Text :=
  ('<' :: e.tag ++ e.attrs.flatMap attributeMarkup ++ ['>']) ::
    if Vocabulary.isVoid e.tag then [] else ["</".toList ++ e.tag ++ ['>']]

/-- A known tag with attributes that it may have, each declared once. The attribute called `text` is
left out, since its declaration is a text marker. -/
structure Valid (e : Element) : Prop where
  tag : Vocabulary.isTag e.tag = true
  distinct : (e.attrs.map Prod.fst).Nodup
  allowed : ∀ a ∈ e.attrs, Classification.allowed a.1 (.element e.tag) = true
  not_text : ∀ a ∈ e.attrs, a.1 ≠ "text".toList
  nonempty : ∀ a ∈ e.attrs, a.2 ≠ []
  one_line : ∀ a ∈ e.attrs, '\n' ∉ a.2
  no_variable : ∀ a ∈ e.attrs, '$' ∉ a.2

section Lines

variable {e : Element}

theorem Valid.exists_head (h : e.Valid) : ∃ c, e.tag.head? = some c ∧ c.isAlphanum = true := by
  cases htag : e.tag with
  | nil =>
    have hnil := h.tag
    rw [htag, Classification.not_isTag_nil] at hnil
    cases hnil
  | cons c rest =>
    exact ⟨c, rfl, Vocabulary.isAlphanum_of_isTag h.tag c (by simp [htag])⟩

theorem Valid.isAttributeChar_of_mem_tag (h : e.Valid) {c : Char} (hc : c ∈ e.tag) :
    Classification.isAttributeChar c = true := by
  rw [Classification.isAttributeChar, Vocabulary.isAlphanum_of_isTag h.tag c hc]
  rfl

theorem opener_eq : e.opener = (e.tag ++ [' ']) ++ ['{'] := by
  rw [opener, List.append_assoc]
  rfl

theorem isWhole_opener (h : e.Valid) : Scan.IsWhole e.opener := by
  rw [opener_eq]
  apply Scan.isWhole_opener
  · intro c hc
    rcases List.mem_append.mp hc with hc | hc
    · exact Scan.isPlain_of_isAttributeChar (h.isAttributeChar_of_mem_tag hc)
    · rw [List.mem_singleton.mp hc]
      rfl
  · obtain ⟨c, hc, halnum⟩ := h.exists_head
    have hattr := h.isAttributeChar_of_mem_tag (List.mem_of_head? hc)
    refine ⟨c, by simp [hc], Classification.not_isBlank_of_isAttributeChar hattr, ?_⟩
    rintro rfl
    exact absurd halnum (by decide)

theorem isLine_opener (h : e.Valid) : e.opener.IsLine := by
  rw [opener_eq]
  refine ⟨?_, by simp⟩
  intro hmem
  simp only [List.append_assoc, List.mem_append, List.mem_singleton] at hmem
  rcases hmem with hmem | hmem | hmem
  · exact absurd (h.isAttributeChar_of_mem_tag hmem) (by decide)
  · exact absurd hmem (by decide)
  · exact absurd hmem (by decide)

theorem declaration_eq (a : Text × Text) :
    declaration a = (['-', '-'] ++ a.1 ++ [':'] ++ [' ']) ++ Value.quote a.2 ++ [';'] := by
  simp [declaration]

theorem isWhole_declaration {a : Text × Text}
    (hname : ∀ c ∈ a.1, Classification.isAttributeChar c = true) :
    Scan.IsWhole (declaration a) := by
  rw [declaration_eq]
  apply Scan.isWhole_declaration
  · intro c hc
    simp only [List.mem_append, List.mem_cons, List.not_mem_nil, or_false, or_self] at hc
    rcases hc with ((rfl | hc) | rfl) | rfl
    · rfl
    · exact Scan.isPlain_of_isAttributeChar (hname c hc)
    · rfl
    · rfl
  · exact ⟨'-', rfl, by decide, by decide⟩
  · intro c hc
    rw [List.getLast?_concat, Option.some.injEq] at hc
    exact hc ▸ (by decide)

theorem isLine_declaration {a : Text × Text}
    (hname : ∀ c ∈ a.1, Classification.isAttributeChar c = true) (hvalue : '\n' ∉ a.2) :
    (declaration a).IsLine := by
  rw [declaration_eq]
  refine ⟨?_, by rw [List.getLast?_concat]; decide⟩
  intro hmem
  simp only [Value.quote, List.mem_append, List.mem_cons, List.not_mem_nil, or_false,
    or_self] at hmem
  rcases hmem with ((((hmem | hmem) | hmem) | hmem) | hmem | hmem | hmem) | hmem
  · exact absurd hmem (by decide)
  · exact absurd (hname _ hmem) (by decide)
  · exact absurd hmem (by decide)
  · exact absurd hmem (by decide)
  · exact absurd hmem (by decide)
  · rcases Value.mem_encode hmem with hmem | hmem
    · exact absurd hmem (by decide)
    · exact hvalue hmem
  · exact absurd hmem (by decide)
  · exact absurd hmem (by decide)

/-- The source of a valid element is scanned line by line. -/
theorem scan_lines (h : e.Valid) :
    Statement.scan (joinLines e.lines) = .ok (Statement.ofLines e.lines) := by
  apply Statement.scan_joinLines
  intro t ht
  simp only [lines, List.mem_cons, List.mem_append, List.mem_map, List.not_mem_nil, or_false] at ht
  rcases ht with rfl | ⟨a, ha, rfl⟩ | rfl
  · exact ⟨isWhole_opener h, isLine_opener h⟩
  · have hname := Vocabulary.isAttributeChar_of_allowed (h.allowed a ha)
    exact ⟨isWhole_declaration hname, isLine_declaration hname (h.one_line a ha)⟩
  · exact ⟨Scan.isWhole_closer, by decide, by decide⟩

end Lines

end Element

/-! ## Taking the element in -/

theorem Document.suppressDeclarations_eq_self {doc : Document}
    (h : ∀ j m, doc.get? j = some m → m.declaration? = none) : doc.suppressDeclarations = doc := by
  have hnodes : doc.nodes.map (fun n ↦
      if n.declaration?.isSome then { n with suppressed := true } else n) = doc.nodes := by
    apply Array.ext_getElem?
    intro j
    rw [Array.getElem?_map]
    cases hj : doc.nodes[j]? with
    | none => rfl
    | some n =>
      rw [Option.map_some, h j n hj]
      rfl
  rw [suppressDeclarations, hnodes]

namespace Element

/-- What the markup reads of a node that declares an attribute. -/
def declared (a : Text × Text) : NodeKind × Bool :=
  (.attribute a.1 a.2 (Vocabulary.isEvent a.1) false, false)

/-- The builder holds an open element with these attributes and nothing else. -/
structure Held (tag : Text) (attrs : List (Text × Text)) (b : Builder) (n : Node) : Prop where
  scopes : b.scopes = [0]
  openAttribute : b.openAttribute = none
  roots : b.doc.roots = [0]
  node : b.doc.get? 0 = some n
  raw : n.raw = tag ++ " \x7b".toList
  kind : n.kind = .element tag none
  shown : n.suppressed = false
  children : n.children = []
  attrs_lt : ∀ j ∈ n.attrs, j < b.doc.size
  attrs_eq : (n.attrs.filterMap b.doc.get?).map (fun m ↦ (m.kind, m.suppressed)) =
    attrs.map declared
  undeclared : ∀ j m, b.doc.get? j = some m → m.declaration? = none

variable {e : Element} {settings : Settings} {base : Path}

theorem classify_opener (h : e.Valid) (scope : Scope) :
    scope.classify e.opener = .element e.tag none := by
  have halnum := Vocabulary.isAlphanum_of_isTag h.tag
  have hspace : ' '.isAlphanum = false := by decide
  have htake : e.opener.takeWhile Char.isAlphanum = e.tag :=
    Text.takeWhile_run halnum (by simp [hspace])
  have hdrop : e.opener.dropWhile Char.isAlphanum = " \x7b".toList :=
    Text.dropWhile_run halnum (by simp [hspace])
  have helement : Classification.element? e.opener = some (.element e.tag none) := by
    simp only [Classification.element?, htake, hdrop, h.tag]
    rfl
  rw [Scope.classify, helement]

theorem classify_declaration (h : e.Valid) {a : Text × Text} (ha : a ∈ e.attrs) :
    (Scope.element e.tag).classify (declaration a) =
      .attribute a.1 a.2 (Vocabulary.isEvent a.1) := by
  have htext : declaration a = Classification.declarationLine a.1 (Value.quote a.2) := rfl
  rw [htext, Scope.classify_declarationLine (h.allowed a ha), if_neg (h.not_text a ha),
    Value.extract_quote, Value.unescape_quote]

theorem held_opener (h : e.Valid) {s : Statement} (hs : s.text = e.opener) :
    ∃ b n, Builder.step settings { base } {} s = .ok (.next b) ∧ Held e.tag [] b n := by
  obtain ⟨c, hc, halnum⟩ := h.exists_head
  have hhead : s.text.head? = some c := by
    rw [hs, opener, List.head?_append, hc]
    rfl
  have hopens : s.opens = true := by
    rw [Statement.opens, hs, opener_eq]
    exact Text.endsWith_iff.mpr ⟨_, rfl⟩
  have hstep : Builder.step settings { base } {} s = .ok (.next (Builder.plain {} s false)) := by
    apply Builder.step_plain rfl hhead
    · rintro rfl
      exact absurd halnum (by decide)
    · rintro rfl
      exact absurd halnum (by decide)
    · rw [Builder.not_closes_of_opens hopens]
      intro hclose
      cases hclose
  have hplain : Builder.plain {} s false =
      { doc := ({} : Document).graft none s (.element e.tag none) false false, scopes := [0] } := by
    simp only [Builder.plain, hs, classify_opener h, hopens, if_true]
    rfl
  have hget : ∀ j, (({} : Document).graft none s (.element e.tag none) false false).get? j =
      if j = 0 then some (({} : Document).leaf none s (.element e.tag none) false false)
      else none := by
    intro j
    rw [Document.get?_graft _ _ _ _ _ (by simp)]
    rfl
  rw [hplain] at hstep
  refine ⟨_, _, hstep, rfl, rfl, rfl, hget 0, hs, rfl, rfl, rfl, by simp [Document.leaf], rfl, ?_⟩
  intro j m hm
  rw [hget] at hm
  split at hm
  · rw [← Option.some.inj hm]
    rfl
  · cases hm

section Step

variable {attrs : List (Text × Text)} {b : Builder} {n : Node}

theorem Held.parent_lt (hb : Held e.tag attrs b n) : ∀ p, some 0 = some p → p < b.doc.size := by
  rintro p ⟨⟩
  exact Document.lt_size_of_get? hb.node

theorem Held.scope_eq (hb : Held e.tag attrs b n) : b.scope = .element e.tag := by
  simp [Builder.scope, hb.scopes, hb.node, hb.kind]

theorem Held.attrs_graft (hb : Held e.tag attrs b n) (s : Statement) (kind : NodeKind) :
    (n.attrs.filterMap (b.doc.graft (some 0) s kind false false).get?).map
      (fun m ↦ (m.kind, m.suppressed)) = attrs.map declared := by
  rw [← hb.attrs_eq, List.map_filterMap, List.map_filterMap]
  apply List.filterMap_congr
  intro j hj
  rw [Document.map_get?_graft b.doc s kind false false
    (by intro m id asAttribute; cases asAttribute <;> rfl) hb.parent_lt,
    if_neg (Nat.ne_of_lt (hb.attrs_lt j hj))]

theorem Held.get?_graft (hb : Held e.tag attrs b n) (s : Statement) (kind : NodeKind) :
    (b.doc.graft (some 0) s kind false false).get? 0 =
        some (n.adopt b.doc.size (b.doc.leaf (some 0) s kind false false).isAttribute) ∧
      (b.doc.graft (some 0) s kind false false).get? b.doc.size =
        some (b.doc.leaf (some 0) s kind false false) := by
  have hzero : (0 : NodeId) ≠ b.doc.size := Nat.ne_of_lt (Document.lt_size_of_get? hb.node)
  have hget := Document.get?_graft b.doc s kind false false hb.parent_lt
  refine ⟨?_, ?_⟩
  · rw [hget, if_neg hzero, hb.node, Option.map_some, if_pos rfl]
  · rw [hget, if_pos rfl]

theorem Held.undeclared_graft (hb : Held e.tag attrs b n) (s : Statement) (kind : NodeKind)
    (hnew : (b.doc.leaf (some 0) s kind false false).declaration? = none) :
    ∀ j m, (b.doc.graft (some 0) s kind false false).get? j = some m → m.declaration? = none := by
  refine Document.forall_graft b.doc s kind false false (P := fun _ m ↦ m.declaration? = none) ?_
    hb.parent_lt hb.undeclared hnew
  intro j m id asAttribute hm
  cases asAttribute <;> exact hm

theorem Held.declare (hb : Held e.tag attrs b n) (h : e.Valid) {a : Text × Text} (ha : a ∈ e.attrs)
    {s : Statement} (hs : s.text = declaration a) :
    ∃ b' n', Builder.step settings { base } b s = .ok (.next b') ∧
      Held e.tag (attrs ++ [a]) b' n' := by
  have hopens : s.opens = false := by
    rw [Statement.opens, hs, declaration, Text.endsWith, List.getLast?_concat]
    rfl
  have hcloses : s.closes = false := by
    rw [Statement.closes, hs, declaration_eq]
    rfl
  have hempty : a.2.isEmpty = false := List.isEmpty_eq_false_iff.mpr (h.nonempty a ha)
  have hstep : b.step settings { base } s = .ok (.next (b.plain s false)) := by
    refine Builder.step_plain hb.openAttribute (c := '-') (by rw [hs, declaration_eq]; rfl)
      (by decide) (by decide) ?_
    rw [hcloses]
    intro hclose
    cases hclose
  -- The value is not empty, so the attribute does not wait for one.
  have hkind : (b.scope.classify s.text).toKind.awaitValue =
      .attribute a.1 a.2 (Vocabulary.isEvent a.1) false := by
    rw [hb.scope_eq, hs, classify_declaration h ha, Classification.toKind, NodeKind.awaitValue,
      hempty]
    rfl
  have hplain : b.plain s false = { b with
      doc := b.doc.graft b.scopes.head? s (.attribute a.1 a.2 (Vocabulary.isEvent a.1) false)
        false false,
      openAttribute := none } := by
    unfold Builder.plain
    simp only [hkind, hopens, hcloses, Bool.false_eq_true, if_false]
    rfl
  rw [hb.scopes, List.head?_cons] at hplain
  obtain ⟨hnode, hnew⟩ := hb.get?_graft s (.attribute a.1 a.2 (Vocabulary.isEvent a.1) false)
  rw [hplain] at hstep
  refine ⟨_, _, hstep, rfl, rfl, ?_, hnode, hb.raw, hb.kind, hb.shown, hb.children, ?_, ?_,
    hb.undeclared_graft s _ rfl⟩
  · rw [Document.roots_graft]
    exact hb.roots
  · intro j hj
    rw [Document.size_graft]
    rcases List.mem_append.mp hj with hj | hj
    · exact Nat.lt_succ_of_lt (hb.attrs_lt j hj)
    · rw [List.mem_singleton.mp hj]
      exact Nat.lt_succ_self _
  · change ((n.attrs ++ [b.doc.size]).filterMap _).map _ = _
    rw [List.filterMap_append, List.map_append, hb.attrs_graft, List.map_append,
      List.filterMap_cons_some hnew]
    rfl

theorem Held.feed (hb : Held e.tag attrs b n) (h : e.Valid) {more : List (Text × Text)}
    (hmore : ∀ a ∈ more, a ∈ e.attrs) {declarations : List Statement}
    (hdeclarations : declarations.map Statement.text = more.map declaration)
    (rest : List Statement) :
    ∃ b' n', b.feed settings { base } (declarations ++ rest) = b'.feed settings { base } rest ∧
      Held e.tag (attrs ++ more) b' n' := by
  induction more generalizing attrs b n declarations with
  | nil =>
    obtain rfl := List.map_eq_nil_iff.mp hdeclarations
    exact ⟨b, n, rfl, by rwa [List.append_nil]⟩
  | cons a more ih =>
    obtain ⟨s, declarations, rfl, hs, hrest⟩ := List.map_eq_cons_iff.mp hdeclarations
    obtain ⟨b₁, n₁, hstep, hb₁⟩ := hb.declare h (hmore a List.mem_cons_self) hs
    obtain ⟨b', n', hfeed, hb'⟩ := ih hb₁ (fun a' ha' ↦ hmore a' (List.mem_cons_of_mem a ha')) hrest
    refine ⟨b', n', ?_, by rwa [List.append_assoc, List.singleton_append] at hb'⟩
    rw [List.cons_append, Builder.feed_next hstep, hfeed]

/-- The brace ends the element and the document. -/
theorem Held.close (hb : Held e.tag attrs b n) {s : Statement} (hs : s.text = ['}']) :
    ∃ b', b.step settings { base } s = .ok (.next b') ∧
      b'.finish = .ok (b.doc.graft (some 0) s .generic false false) := by
  have hcloses : s.closes = true := by
    rw [Statement.closes, hs]
    rfl
  have hopens : s.opens = false := by
    rw [Statement.opens, hs]
    rfl
  have hstep : b.step settings { base } s = .ok (.next (b.plain s false)) := by
    apply Builder.step_plain hb.openAttribute (c := '}') (by rw [hs]; rfl) (by decide) (by decide)
    intro _
    rw [hb.scopes]
    exact Nat.zero_lt_one
  have hkind : (b.scope.classify s.text).toKind.awaitValue = .generic := by
    rw [hs, Scope.classify_closing]
    rfl
  have hplain : b.plain s false =
      ({ b with openAttribute := none }.add s .generic false false).closeBlock := by
    unfold Builder.plain
    simp only [hkind, hopens, hcloses, Bool.false_eq_true, if_false, if_true]
    rfl
  have hdoc : ({ b with openAttribute := none }.add s .generic false false).doc =
      b.doc.graft (some 0) s .generic false false := by
    change b.doc.graft b.scopes.head? s .generic false false = _
    rw [hb.scopes, List.head?_cons]
  have hscopes :
      ({ b with openAttribute := none }.add s .generic false false).scopes.tail = [] := by
    rw [Builder.add, hb.scopes]
    rfl
  refine ⟨_, hstep, ?_⟩
  rw [hplain, Builder.finish, Builder.closeBlock_openAttribute, Builder.closeBlock_scopes, hscopes,
    Builder.closeBlock_doc, hdoc]
  rfl

theorem Held.forest_close (hb : Held e.tag attrs b n) (s : Statement) :
    (b.doc.graft (some 0) s .generic false false).forest =
      [.mk (n.adopt b.doc.size false)
        (n.attrs.filterMap (b.doc.graft (some 0) s .generic false false).get?)
        [.mk (b.doc.leaf (some 0) s .generic false false) [] []]] := by
  obtain ⟨hnode, hnew⟩ := hb.get?_graft s .generic
  obtain ⟨bound, hbound⟩ := Nat.exists_eq_succ_of_ne_zero
    (Nat.ne_of_gt (Document.lt_size_of_get? hb.node))
  have hbrace : (b.doc.graft (some 0) s .generic false false).treeWithin (bound + 1) b.doc.size =
      some (.mk (b.doc.leaf (some 0) s .generic false false) [] []) := by
    rw [Document.treeWithin, hnew]
    rfl
  rw [← Nat.succ_eq_add_one, ← hbound] at hbrace
  have hchildren : (n.adopt b.doc.size false).children = [b.doc.size] := by
    rw [Node.adopt, if_neg Bool.false_ne_true, hb.children]
    rfl
  have htree : (b.doc.graft (some 0) s .generic false false).treeWithin (b.doc.size + 1) 0 =
      some (.mk (n.adopt b.doc.size false)
        (n.attrs.filterMap (b.doc.graft (some 0) s .generic false false).get?)
        [.mk (b.doc.leaf (some 0) s .generic false false) [] []]) := by
    rw [Document.treeWithin, hnode, Option.map_some]
    change some (Tree.mk _ _ ((n.adopt b.doc.size false).children.filterMap _)) = _
    rw [hchildren, List.filterMap_cons_some hbrace]
    rfl
  rw [Document.forest, Document.roots_graft, Document.size_graft]
  change b.doc.roots.filterMap _ = _
  rw [hb.roots, List.filterMap_cons_some htree]
  rfl

end Step

theorem text_ofLines (ls : List Text) : (Statement.ofLines ls).map Statement.text = ls := by
  simp [Statement.ofLines, Function.comp_def]

/-- The document of a valid element: the element, its attributes and its brace. -/
theorem exists_document (settings : Settings) (base : Path) (h : e.Valid) :
    ∃ doc n nodes c, Document.parse settings base (joinLines e.lines) = .ok doc ∧
      doc.suppressDeclarations = doc ∧ doc.forest = [.mk n nodes [.mk c [] []]] ∧
      n.raw = e.opener ∧ n.kind = .element e.tag none ∧ n.suppressed = false ∧
      nodes.map (fun m ↦ (m.kind, m.suppressed)) = e.attrs.map declared ∧
      c.raw = ['}'] ∧ c.kind = .generic ∧ c.suppressed = false := by
  obtain ⟨opening, rest, hstatements, hopening, hrest⟩ :=
    List.map_eq_cons_iff.mp (text_ofLines e.lines)
  obtain ⟨declarations, last, rfl, hdeclarations, hlast⟩ := List.map_eq_append_iff.mp hrest
  obtain ⟨brace, after, rfl, hbrace, hafter⟩ := List.map_eq_cons_iff.mp hlast
  obtain rfl := List.map_eq_nil_iff.mp hafter
  obtain ⟨b₀, n₀, hstep₀, hb₀⟩ := held_opener h hopening
  obtain ⟨b₁, n₁, hfeed₁, hb₁⟩ := hb₀.feed h (fun _ ha ↦ ha) hdeclarations [brace]
  obtain ⟨b₂, hstep₂, hfinish⟩ := hb₁.close hbrace
  have hparse : Document.parse settings base (joinLines e.lines) =
      .ok (b₁.doc.graft (some 0) brace .generic false false) := by
    rw [Document.parse, scan_lines h, hstatements]
    simp only [Document.ofStatements]
    rw [Builder.feed_next hstep₀, hfeed₁, Builder.feed_next hstep₂, Builder.feed_nil]
    exact hfinish
  have hundeclared := hb₁.undeclared_graft brace .generic (Node.declaration?_of_brace hbrace)
  refine ⟨_, _, _, _, hparse, ?_, hb₁.forest_close brace, hb₁.raw, hb₁.kind, hb₁.shown,
    hb₁.attrs_graft brace .generic, hbrace, rfl, rfl⟩
  exact Document.suppressDeclarations_eq_self hundeclared

end Element

/-! ## Rendering the element -/

namespace Markup

/-- Distinct attributes without variables come out as they were declared. -/
theorem foldl_declare (r : Resolver) {nodes : List Node} {front attrs : List (Text × Text)}
    (hnodes : nodes.map (fun m ↦ (m.kind, m.suppressed)) = attrs.map Element.declared)
    (hdistinct : ((front ++ attrs).map Prod.fst).Nodup) (hvalues : ∀ a ∈ attrs, '$' ∉ a.2) :
    nodes.foldl (declare r) front = front ++ attrs := by
  induction attrs generalizing nodes front with
  | nil =>
    obtain rfl := List.map_eq_nil_iff.mp hnodes
    rw [List.foldl_nil, List.append_nil]
  | cons a attrs ih =>
    obtain ⟨n, nodes, rfl, hn, hrest⟩ := List.map_eq_cons_iff.mp hnodes
    obtain ⟨hkind, hshown⟩ := Prod.mk.inj hn
    have hname : a.1 ∉ front.map Prod.fst := by
      intro hmem
      rw [List.map_append, List.nodup_append] at hdistinct
      exact hdistinct.2.2 _ hmem _ (by simp) rfl
    have hdeclare : declare r front n = front ++ [a] := by
      simp only [declare, hkind, hshown, Bool.or_false, Bool.false_eq_true, if_false]
      rw [r.apply_of_not_mem (hvalues a List.mem_cons_self), setAttribute_of_not_mem hname]
    rw [List.foldl_cons, hdeclare,
      ih hrest (by simpa using hdistinct) fun a' ha' ↦ hvalues a' (List.mem_cons_of_mem a ha')]
    simp

section Render

variable (r : Resolver) {doc : Document} {n c : Node} {nodes : List Node} {tag : Text}
  {classes : Option Text} (hforest : doc.forest = [.mk n nodes [.mk c [] []]])
  (hkind : n.kind = .element tag classes) (hshown : n.suppressed = false)
  (hopen : n.leavesOpen = true) (hclose : c.isBlockClose = true) (hgeneric : c.kind = .generic)
  (hbrace : c.suppressed = false)
include hforest hkind hshown hopen hclose hgeneric hbrace

theorem render_of_element :
    render r doc = .ok (joinLines (openTag tag (attributes r classes nodes) ::
      if Vocabulary.isVoid tag then [] else [closeTag tag])) := by
  unfold render
  rw [hforest, walkAll, walkAll, walk_element r 0 {} nodes _ hshown hkind, walkAll, walkAll,
    walk_brace r _ _ [] hclose hgeneric hbrace, Progress.element_of_block _ _ hopen,
    Progress.close_enter]
  split <;> rfl

end Render

end Markup

namespace Stylesheet

theorem render_of_block (r : Resolver) {doc : Document} {n c : Node} {nodes : List Node}
    (hforest : doc.forest = [.mk n nodes [.mk c [] []]]) (hshown : isHidden n = false)
    (hopen : n.isBlockClose = false) (hbrace : isHidden c = false)
    (hclose : c.isBlockClose = true) :
    render r doc = .ok (joinLines [r.apply n.raw, ['}']]) := by
  have hinner : emitAll r 1 [.mk c [] []] = .ok [['}']] := by
    simp only [emitAll, emit, line, hbrace, hclose]
    rfl
  rw [render, hforest, emitAll, emitAll, emit, hinner]
  simp only [line, hshown, hopen]
  rfl

end Stylesheet

namespace Element

variable {e : Element}

theorem not_variable_mem_opener (h : e.Valid) : '$' ∉ e.opener := by
  intro hmem
  rcases List.mem_append.mp hmem with hmem | hmem
  · exact absurd (h.isAttributeChar_of_mem_tag hmem) (by decide)
  · exact absurd hmem (by decide)

theorem not_isTextMarker_opener (h : e.Valid) : Classification.isTextMarker e.opener = false := by
  obtain ⟨c, hc, halnum⟩ := h.exists_head
  have hhead : e.opener.head? = some c := by
    rw [opener, List.head?_append, hc]
    rfl
  have hdash : c ≠ '-' := by
    rintro rfl
    exact absurd halnum (by decide)
  have hnone : Text.after? Classification.textMarker e.opener = none :=
    Text.after?_eq_none_of_head rfl hhead hdash
  rw [Classification.isTextMarker, hnone]

/-- The document of a valid element has these renderings, whatever its variables stand for. -/
theorem exists_renderings (settings : Settings) (base : Path) (h : e.Valid) :
    ∃ doc, Document.parse settings base (joinLines e.lines) = .ok doc ∧
      doc.suppressDeclarations = doc ∧ ∀ r, Markup.render r doc = .ok (joinLines e.markup) ∧
        Stylesheet.render r doc = .ok (joinLines [e.opener, ['}']]) := by
  obtain ⟨doc, n, nodes, c, hparse, hsuppress, hforest, hraw, hkind, hshown, hnodes, hbrace,
    hgeneric, hplain⟩ := e.exists_document settings base h
  have hblank : Text.isBlank '{' = false := by decide
  have hclose : c.isBlockClose = true := by
    rw [Node.isBlockClose, hbrace]
    rfl
  refine ⟨doc, hparse, hsuppress, fun r ↦ ⟨?_, ?_⟩⟩
  · have hopen : n.leavesOpen = true := by
      rw [Node.leavesOpen, hraw, opener_eq, Text.trimEnd_append_singleton _ hblank,
        Text.endsWith_iff]
      exact ⟨_, rfl⟩
    have hattrs : Markup.attributes r none nodes = e.attrs :=
      Markup.foldl_declare r hnodes h.distinct h.no_variable
    rw [Markup.render_of_element r hforest hkind hshown hopen hclose hgeneric hplain, hattrs]
    rfl
  · have hhidden : Stylesheet.isHidden n = false := by
      rw [Stylesheet.isHidden, hshown, Node.isAttribute, hkind, hraw, not_isTextMarker_opener h]
      rfl
    have hclosing : Stylesheet.isHidden c = false := by
      rw [Stylesheet.isHidden, hplain, Node.isAttribute, hgeneric, hbrace]
      rfl
    have hnot : n.isBlockClose = false := by
      rw [Node.isBlockClose, hraw, opener_eq, Text.trim_append_singleton _ hblank,
        beq_eq_false_iff_ne]
      intro heq
      simpa using congrArg List.getLast? heq
    rw [Stylesheet.render_of_block r hforest hhidden hnot hclosing hclose, hraw,
      r.apply_of_not_mem (not_variable_mem_opener h)]

end Element

/-- Whatever the values are, a written element is compiled to its markup with the same attributes,
and to a stylesheet without them. -/
theorem Compile.both_of_element (load : Loader) (options : Options) (base : Path) {e : Element}
    (h : e.Valid) :
    Compile.both load options base (joinLines e.lines) =
      .ok ⟨joinLines e.markup, joinLines [e.opener, ['}']]⟩ := by
  obtain ⟨doc, hparse, hsuppress, hrender⟩ :=
    e.exists_renderings ⟨load, options.maxImportDepth⟩ base h
  obtain ⟨hmarkup, hstylesheet⟩ := hrender ⟨options.overrides, doc.bindings⟩
  have hprepare : Compile.prepare load options base (joinLines e.lines) =
      .ok (doc, ⟨options.overrides, doc.bindings⟩) := by
    simp only [Compile.prepare, hparse, hsuppress]
  rw [Compile.both, hprepare]
  simp only [bind, Except.bind, hmarkup, hstylesheet]
  rfl

theorem Compile.both_of_element_quoted :
    Compile.both (Library.ofList []).load {} ⟨[]⟩
        "br \x7b\n--class: \"a\\\"b\\\\;\x7d\";\n--id: \"f('x') // y\";\n\x7d".toList =
      .ok ⟨"<br class=\"a&quot;b\\;\x7d\" id=\"f('x') // y\">".toList, "br \x7b\n\x7d".toList⟩ := by
  obtain ⟨e, hvalid, hsource, hmarkup, hstylesheet⟩ : ∃ e : Element, e.Valid ∧
      joinLines e.lines =
        "br \x7b\n--class: \"a\\\"b\\\\;\x7d\";\n--id: \"f('x') // y\";\n\x7d".toList ∧
      joinLines e.markup = "<br class=\"a&quot;b\\;\x7d\" id=\"f('x') // y\">".toList ∧
      joinLines [e.opener, ['}']] = "br \x7b\n\x7d".toList := by
    refine ⟨⟨"br".toList, [("class".toList, "a\"b\\;\x7d".toList),
      ("id".toList, "f('x') // y".toList)]⟩, ?_, ?_, ?_, ?_⟩
    · constructor <;> decide +kernel
    · decide +kernel
    · decide +kernel
    · decide +kernel
  rw [← hsource, ← hmarkup, ← hstylesheet]
  exact Compile.both_of_element (Library.ofList []).load {} ⟨[]⟩ hvalid

end StyledMarkup
