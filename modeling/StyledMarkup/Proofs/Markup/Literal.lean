import StyledMarkup.Proofs.Collision
import StyledMarkup.Proofs.Markup.Multiline

/-!
# The same value as text and as an attribute

An attribute is read when its statement is taken in, and variables are replaced in what was read. A
text marker stays as it is written: variables are replaced in the whole statement, and the result is
read. So what stands between double quotes comes out the same way, except that an escape in the
value of a variable is replaced in text and left alone in an attribute.
-/

namespace StyledMarkup

/-! ## Variables between double quotes -/

namespace Resolver

/-- The quotes and what is outside them keep apart from the variables between them. -/
theorem apply_declarationLine (r : Resolver) {name : Text} (hname : '$' ∉ name) (spelling : Text) :
    r.apply (Classification.declarationLine name (Value.enclose spelling)) =
      Classification.declarationLine name (Value.enclose (r.apply spelling)) := by
  have hline : ∀ t, Classification.declarationLine name (Value.enclose t) =
      ("--".toList ++ name ++ ": \"".toList) ++ (t ++ "\";".toList) := by
    intro t
    simp [Classification.declarationLine, Value.enclose]
  have hfront : '$' ∉ "--".toList ++ name ++ ": \"".toList := by simp [hname]
  have hback : ¬Token.StartsName "\";".toList := by
    rw [show "\";".toList = '"' :: [';'] from rfl, Token.startsName_cons_of_ne (by decide)]
    decide
  rw [hline, hline, apply_eq_iterate, apply_eq_iterate, iterate_pass_front r _ hfront,
    iterate_pass_append fun hcollides ↦ hback hcollides.2,
    iterate_pass_of_not_mem r _ (by decide : '$' ∉ "\";".toList)]

end Resolver

theorem Classification.textContent?_declarationLine (r : Resolver) (spelling : Text) :
    textContent? (r.apply (declarationLine "text".toList (Value.enclose spelling))) =
      some (Value.decode (r.apply spelling)) := by
  rw [r.apply_declarationLine (by decide), declarationLine_text, textContent?_marker (by simp),
    Value.extract_enclose, Value.unescape_enclose]

/-! ## Statements of a block -/

/-- At this point of a run, the statement stands next in the block `id`, and no attribute waits for
its value. -/
structure Moment.Awaits (m : Moment) (id : NodeId) (s : Statement) : Prop where
  closed : m.builder.openAttribute = none
  block : m.builder.scopes.head? = some id
  next : m.rest.head? = some s

namespace Moment.Awaits

variable {settings : Settings} {base : Path} {source : Text} {m : Moment} {id : NodeId}
  {s : Statement} (h : m.Awaits id s) (hm : Reachable settings base source m) {doc : Document}
  (hdoc : Document.parse settings base source = .ok doc)
include h hm hdoc

theorem scope_eq {tag : Text} {classes : Option Text}
    (helement : (doc.get? id).map Node.kind = some (.element tag classes)) :
    m.builder.scope = .element tag := by
  have hcore := hm.core_of_parse hdoc (hm.sound.builder_sound.head?_lt id h.block)
  have hkind : (m.builder.doc.get? id).map Node.kind = (doc.get? id).map Node.kind := by
    simpa [Node.core, Function.comp_def] using
      (congrArg (Option.map fun core ↦ core.2.1) hcore).symm
  obtain ⟨outer, hscopes⟩ := List.head?_eq_some_iff.mp h.block
  rw [Builder.scope, hscopes]
  simp only [hkind, helement]

/-- The statement becomes the next node, in the block. -/
theorem core_eq (hhead : s.text.head? = some '-') :
    (doc.get? m.builder.doc.size).map Node.core =
      some (s.text, (m.builder.scope.classify s.text).toKind.awaitValue, some id, false) := by
  have hlt := hm.sound.builder_sound.head?_lt
  obtain ⟨b, ctx, rest, callers, log⟩ := m
  obtain ⟨hopen, hblock, hnext⟩ := h
  obtain ⟨more, rfl⟩ := List.head?_eq_some_iff.mp hnext
  have hstep : b.step settings ctx s = .ok (.next (b.plain s ctx.isExpanding)) := by
    refine Builder.step_plain hopen hhead (by decide) (by decide) fun hclose ↦ ?_
    have hbrace : s.text = ['}'] := by simpa [Statement.closes] using hclose
    simp [hbrace] at hhead
  have hm' := hm.runs (.single (.next hstep))
  dsimp only at hlt hblock ⊢
  rw [hm'.core_of_parse hdoc (by simp [Builder.doc_plain]), Builder.doc_plain,
    Document.map_get?_graft b.doc s _ false ctx.isExpanding Node.core_adopt hlt, if_pos rfl, hblock]
  rfl

/-- A value between double quotes, with something between them, becomes an attribute at once. -/
theorem core_of_enclosed {tag : Text} {classes : Option Text}
    (helement : (doc.get? id).map Node.kind = some (.element tag classes)) {name spelling : Text}
    (hs : s.text = Classification.declarationLine name (Value.enclose spelling))
    (hallowed : Classification.allowed name (.element tag) = true) (hname : name ≠ "text".toList)
    (hne : spelling ≠ []) :
    (doc.get? m.builder.doc.size).map Node.core =
      some (s.text, .attribute name (Value.decode spelling) (Vocabulary.isEvent name) false,
        some id, false) := by
  have hempty : (Value.decode spelling).isEmpty = false :=
    List.isEmpty_eq_false_iff.mpr (mt Value.decode_eq_nil_iff.mp hne)
  rw [h.core_eq hm hdoc (by rw [hs]; rfl), h.scope_eq hm hdoc helement, hs,
    Scope.classify_declarationLine hallowed, if_neg hname, Value.extract_enclose,
    Value.unescape_enclose, Classification.toKind, NodeKind.awaitValue, hempty]
  rfl

theorem core_of_isTextMarker (hs : Classification.isTextMarker s.text = true) :
    (doc.get? m.builder.doc.size).map Node.core = some (s.text, .generic, some id, false) := by
  have hhead : s.text.head? = some '-' := by
    obtain ⟨blanks, rest, htext, -⟩ := Classification.isTextMarker_iff.mp hs
    rw [htext]
    rfl
  rw [h.core_eq hm hdoc hhead, Scope.classify_of_isTextMarker _ hs]
  rfl

end Moment.Awaits

/-! ## Lines of the markup -/

namespace Markup

theorem IsShown.child {doc : Document} {p j : NodeId} {n : Node} (h : IsShown doc p)
    (hp : doc.parent? j = some p) (hn : doc.get? j = some n)
    (hshown : (n.suppressed || n.isAttribute) = false) : IsShown doc j := by
  rintro i (rfl | hi)
  · rw [Document.has_of_get? hn, hshown]
  · exact h i (hi.parent_cases hp)

/-- The last attribute of a name that is no event decides the value. -/
theorem filter_attributes_of_last {doc : Document} (hlinked : doc.Linked) {id j : NodeId} {n : Node}
    (hn : doc.get? id = some n) {raw name value : Text} {parent : Option NodeId}
    (hcore : (doc.get? j).map Node.core =
      some (raw, .attribute name value false false, parent, false))
    (hlast : (doc.namesakes id name).getLast? = some j) (r : Resolver) (classes : Option Text) :
    (attributes r classes (n.attrs.filterMap doc.get?)).filter (fun attr ↦ attr.1 = name) =
      [(name, r.apply value)] := by
  obtain ⟨front, hfront⟩ := List.getLast?_eq_some_iff.mp hlast
  have hnode : (doc.get? j).bind (Attribute.ofNode? r) = some ⟨name, r.apply value, false⟩ :=
    ofNode?_of_core r hcore
  have hown := declarationsOf_declared hlinked hn r classes name
  rw [hfront, List.filterMap_append, List.filterMap_cons, hnode, List.filterMap_nil,
    ← List.append_assoc] at hown
  rw [filter_attributes r classes _ (by rw [hown]; simp), hown,
    settled_append_of_not_event _ (by rfl)]

section Orderly

variable {doc : Document} (h : doc.Orderly) (r : Resolver) {j : NodeId} {n : Node}
  (hn : doc.get? j = some n) (hshown : IsShown doc j)
include h hn hshown

theorem openTag_mem_lines {tag : Text} {classes : Option Text}
    (hkind : n.kind = .element tag classes) (hopen : n.isBlockOpen = true) :
    indent (doc.depth j) (openTag tag (attributes r classes (n.attrs.filterMap doc.get?))) ∈
      linesOfAll r 0 doc.forest := by
  obtain ⟨bound, -, hlines⟩ := exists_linesOf h r hn hshown
  apply hlines
  rw [linesOf_block r _ _ _ (Bool.or_eq_false_iff.mp (hshown.node hn)).1 hkind hopen]
  exact List.mem_cons_self

theorem literal_mem_lines (hkind : n.kind = .generic)
    (hmarker : Classification.isTextMarker n.raw = true) :
    indent (doc.depth j) (literal r n) ∈ linesOfAll r 0 doc.forest := by
  have hclose : n.isBlockClose = false := by
    by_contra hclose
    rw [Node.raw_of_isBlockClose (h.trimmed j n hn) (Bool.of_not_eq_false hclose)] at hmarker
    exact absurd hmarker (by decide)
  obtain ⟨bound, -, hlines⟩ := exists_linesOf h r hn hshown
  apply hlines
  rw [linesOf_statement r _ _ _ (Or.inr hkind) (Bool.or_eq_false_iff.mp (hshown.node hn)).1 hclose,
    if_pos hmarker]
  exact List.mem_cons_self

end Orderly

open Classification

theorem exists_of_element {doc : Document} {id : NodeId} {tag : Text} {classes : Option Text}
    (helement : (doc.get? id).map Node.kind = some (.element tag classes)) :
    ∃ n, doc.suppressDeclarations.get? id = some n ∧ n.kind = .element tag classes := by
  obtain ⟨n₀, hn₀, hkind₀⟩ := Option.map_eq_some_iff.mp helement
  obtain ⟨n, hn, -, hkind, -, -⟩ := Document.exists_of_core (Document.core_suppressDeclarations
    (by rw [hn₀]; rfl) (by rw [hkind₀]; simp))
  exact ⟨n, hn, hkind.trans hkind₀⟩

section Block

variable {settings : Settings} {base : Path} {source : Text} {m : Moment}
  (hm : Reachable settings base source m) {id : NodeId} {s : Statement} (hawaits : m.Awaits id s)
  {doc : Document} (hdoc : Document.parse settings base source = .ok doc) {n : Node}
  (hn : doc.suppressDeclarations.get? id = some n) {spelling : Text} (r : Resolver)
include hm hawaits hdoc hn

theorem title_of_awaits {tag : Text} {classes : Option Text}
    (helement : (doc.get? id).map Node.kind = some (.element tag classes))
    (hs : s.text = declarationLine "title".toList (Value.enclose spelling)) (hne : spelling ≠ [])
    (hbackslash : '\\' ∉ spelling)
    (hlast : (doc.namesakes id "title".toList).getLast? = some m.builder.doc.size) :
    (attributes r classes (n.attrs.filterMap doc.suppressDeclarations.get?)).filter
      (fun attr ↦ attr.1 = "title".toList) = [("title".toList, r.apply spelling)] := by
  have hcore := hawaits.core_of_enclosed hm hdoc helement hs (Vocabulary.allowed_title _)
    (by decide) hne
  rw [Vocabulary.isEvent_title, Value.decode_eq_self_of_not_mem hbackslash] at hcore
  refine filter_attributes_of_last (Document.orderly_of_parse hdoc).linked hn
    (Document.core_suppressDeclarations hcore (by simp)) ?_ r classes
  rw [Document.namesakes_suppressDeclarations, hlast]

/-- The text of a marker is a line one level below its block, which is therefore open. -/
theorem text_of_awaits (hs : s.text = declarationLine "text".toList (Value.enclose spelling))
    (hshown : IsShown doc.suppressDeclarations id) :
    n.isBlockOpen = true ∧
      indent (doc.suppressDeclarations.depth id + 1) (Value.decode (r.apply spelling)) ∈
        linesOfAll r 0 doc.suppressDeclarations.forest := by
  have horderly := Document.orderly_of_parse hdoc
  have hmarker : isTextMarker s.text = true := by rw [hs, isTextMarker_declarationLine]
  have hcore := Document.core_suppressDeclarations
    (hawaits.core_of_isTextMarker hm hdoc hmarker) fun _ ↦ by rw [hs]; rfl
  obtain ⟨node, hnode, hraw, hkind, hparent, hsuppressed⟩ := Document.exists_of_core hcore
  have hbelow : doc.suppressDeclarations.parent? m.builder.doc.size = some id := by
    rw [Document.parent?, hnode, Option.bind_some, hparent]
  have hattribute : node.isAttribute = false := by rw [Node.isAttribute, hkind]
  have hchild : m.builder.doc.size ∈ n.children := by
    rw [horderly.linked.mem_children hn, Document.has_of_get? hnode]
    exact ⟨hbelow, hattribute⟩
  have hliteral : literal r node = Value.decode (r.apply spelling) := by
    rw [literal, hraw, hs, textContent?_declarationLine, Option.getD_some]
  have hline := literal_mem_lines horderly r hnode
    (hshown.child hbelow hnode (by rw [hsuppressed, hattribute]; rfl)) hkind (by rw [hraw, hmarker])
  rw [horderly.linked.coherent.depth_of_parent hbelow, hliteral] at hline
  exact ⟨(block_of_child horderly hn hchild).1, hline⟩

end Block

/-- The same value as the title of an element and as text in it. In both the variables are replaced.
Escapes in what comes out of that are left alone in the title and replaced in the text, so the two
are equal exactly if there are none. -/
theorem title_and_text {settings : Settings} {base : Path} {source : Text} {m₁ m₂ : Moment}
    (hm₁ : Reachable settings base source m₁) (hm₂ : Reachable settings base source m₂)
    {id : NodeId} {tag : Text} {classes : Option Text} {title text : Statement} {spelling : Text}
    (hawaits₁ : m₁.Awaits id title) (hawaits₂ : m₂.Awaits id text)
    (htitle : title.text = declarationLine "title".toList (Value.enclose spelling))
    (htext : text.text = declarationLine "text".toList (Value.enclose spelling))
    (hne : spelling ≠ []) (hbackslash : '\\' ∉ spelling) {doc : Document}
    (hdoc : Document.parse settings base source = .ok doc)
    (helement : (doc.get? id).map Node.kind = some (.element tag classes))
    (hlast : (doc.namesakes id "title".toList).getLast? = some m₁.builder.doc.size)
    (hshown : IsShown doc.suppressDeclarations id) (r : Resolver) :
    ∃ n lines, doc.suppressDeclarations.get? id = some n ∧
      render r doc.suppressDeclarations = .ok (joinLines lines) ∧
      (attributes r classes (n.attrs.filterMap doc.suppressDeclarations.get?)).filter
        (fun attr ↦ attr.1 = "title".toList) = [("title".toList, r.apply spelling)] ∧
      indent (doc.suppressDeclarations.depth id) (openTag tag (attributes r classes
        (n.attrs.filterMap doc.suppressDeclarations.get?))) ∈ lines ∧
      textContent? (r.apply text.text) = some (Value.decode (r.apply spelling)) ∧
      indent (doc.suppressDeclarations.depth id + 1) (Value.decode (r.apply spelling)) ∈ lines ∧
      (Value.decode (r.apply spelling) = r.apply spelling ↔
        ∀ u, u <:+ r.apply spelling → Value.startsEscape u = false) := by
  have horderly := Document.orderly_of_parse hdoc
  obtain ⟨n, hn, hkind⟩ := exists_of_element helement
  obtain ⟨hopen, hline⟩ := text_of_awaits hm₂ hawaits₂ hdoc hn r htext hshown
  have hcontent : textContent? (r.apply text.text) = some (Value.decode (r.apply spelling)) := by
    rw [htext, textContent?_declarationLine]
  exact ⟨n, _, hn, render_of_orderly horderly r,
    title_of_awaits hm₁ hawaits₁ hdoc hn r helement htitle hne hbackslash hlast,
    openTag_mem_lines horderly r hn hshown hkind hopen, hcontent, hline, Value.decode_eq_self_iff⟩

/-- A variable as the title of an element and as text in it. -/
theorem exists_awaits_title_text :
    ∃ m₁ m₂ doc,
      Reachable ⟨fun _ ↦ .error "", 0⟩ ⟨[]⟩
        "div \x7b\n--title: \"$a\";\n--text: \"$a\";\n\x7d".toList m₁ ∧
      Reachable ⟨fun _ ↦ .error "", 0⟩ ⟨[]⟩
        "div \x7b\n--title: \"$a\";\n--text: \"$a\";\n\x7d".toList m₂ ∧
      m₁.Awaits 0 ⟨"--title: \"$a\";".toList, 2⟩ ∧ m₂.Awaits 0 ⟨"--text: \"$a\";".toList, 3⟩ ∧
      Document.parse ⟨fun _ ↦ .error "", 0⟩ ⟨[]⟩
        "div \x7b\n--title: \"$a\";\n--text: \"$a\";\n\x7d".toList = .ok doc ∧
      (doc.get? 0).map Node.kind = some (.element "div".toList none) ∧
      (doc.namesakes 0 "title".toList).getLast? = some m₁.builder.doc.size ∧
      IsShown doc.suppressDeclarations 0 := by
  have hscan : Statement.scan "div \x7b\n--title: \"$a\";\n--text: \"$a\";\n\x7d".toList =
      .ok [⟨"div \x7b".toList, 1⟩, ⟨"--title: \"$a\";".toList, 2⟩, ⟨"--text: \"$a\";".toList, 3⟩,
        ⟨"\x7d".toList, 4⟩] := by
    cbv
  refine ⟨_, _, ?_, ⟨_, hscan, .head (.next rfl) .refl⟩,
    ⟨_, hscan, .head (.next rfl) (.head (.next rfl) .refl)⟩, ⟨rfl, rfl, rfl⟩, ⟨rfl, rfl, rfl⟩,
    ?_, ?_, ?_, ?_⟩
  rotate_left
  · rw [Document.parse, hscan]
    simp only [Document.ofStatements]
    rw [Builder.feed_next rfl, Builder.feed_next rfl, Builder.feed_next rfl,
      Builder.feed_next rfl, Builder.feed_nil]
    rfl
  · decide +kernel
  · decide +kernel
  · rintro i (rfl | hi)
    · decide +kernel
    · exact absurd hi (Document.not_below_of_root (by decide +kernel))

theorem title_and_text_of_variable :
    ∃ doc n lines, Document.parse ⟨fun _ ↦ .error "", 0⟩ ⟨[]⟩
        "div \x7b\n--title: \"$a\";\n--text: \"$a\";\n\x7d".toList = .ok doc ∧
      doc.suppressDeclarations.get? 0 = some n ∧
      render ⟨⟨[("$a".toList, "b".toList)]⟩, {}⟩ doc.suppressDeclarations = .ok (joinLines lines) ∧
      (attributes ⟨⟨[("$a".toList, "b".toList)]⟩, {}⟩ none
        (n.attrs.filterMap doc.suppressDeclarations.get?)).filter
        (fun attr ↦ attr.1 = "title".toList) = [("title".toList, "b".toList)] ∧
      indent (doc.suppressDeclarations.depth 0 + 1) "b".toList ∈ lines := by
  obtain ⟨m₁, m₂, doc, hm₁, hm₂, hawaits₁, hawaits₂, hdoc, helement, hlast, hshown⟩ :=
    exists_awaits_title_text
  have happly : Resolver.apply ⟨⟨[("$a".toList, "b".toList)]⟩, {}⟩ "$a".toList = "b".toList := by
    cbv
  obtain ⟨n, lines, hn, hrender, hattrs, -, -, hline, -⟩ := title_and_text hm₁ hm₂ hawaits₁ hawaits₂
    (show _ = declarationLine _ (Value.enclose "$a".toList) by decide) (by decide) (by decide)
    (by decide) hdoc helement hlast hshown ⟨⟨[("$a".toList, "b".toList)]⟩, {}⟩
  rw [happly] at hattrs hline
  exact ⟨doc, n, lines, hdoc, hn, hrender, hattrs, hline⟩

/-- A title and a text with the same spelling do not always say the same. -/
theorem not_forall_title_eq_text :
    ¬∀ (settings : Settings) (base : Path) (source : Text) (m₁ m₂ : Moment) (id : NodeId)
      (tag : Text) (classes : Option Text) (title text : Statement) (spelling : Text)
      (doc : Document) (r : Resolver) (n : Node) (value content : Text),
      Reachable settings base source m₁ → Reachable settings base source m₂ →
      m₁.Awaits id title → m₂.Awaits id text →
      title.text = declarationLine "title".toList (Value.enclose spelling) →
      text.text = declarationLine "text".toList (Value.enclose spelling) →
      spelling ≠ [] → (∀ c ∈ "\\\"\n".toList, c ∉ spelling) →
      Document.parse settings base source = .ok doc →
      (doc.get? id).map Node.kind = some (.element tag classes) →
      (doc.namesakes id "title".toList).getLast? = some m₁.builder.doc.size →
      IsShown doc.suppressDeclarations id → doc.suppressDeclarations.get? id = some n →
      ("title".toList, value) ∈ attributes r classes
        (n.attrs.filterMap doc.suppressDeclarations.get?) →
      textContent? (r.apply text.text) = some content → content = value := by
  intro hall
  obtain ⟨m₁, m₂, doc, hm₁, hm₂, hawaits₁, hawaits₂, hdoc, helement, hlast, hshown⟩ :=
    exists_awaits_title_text
  obtain ⟨n, hn, -⟩ := exists_of_element helement
  have htitle : "--title: \"$a\";".toList =
      declarationLine "title".toList (Value.enclose "$a".toList) := by decide
  have htext : "--text: \"$a\";".toList =
      declarationLine "text".toList (Value.enclose "$a".toList) := by decide
  let r : Resolver := ⟨⟨[("$a".toList, "x\\ny".toList)]⟩, {}⟩
  have happly : r.apply "$a".toList = "x\\ny".toList := by cbv
  have hattrs :=
    title_of_awaits hm₁ hawaits₁ hdoc hn r helement htitle (by decide) (by decide) hlast
  have hmem : ("title".toList, r.apply "$a".toList) ∈ attributes r none
      (n.attrs.filterMap doc.suppressDeclarations.get?) := by
    apply List.mem_of_mem_filter
    rw [hattrs]
    exact List.mem_cons_self
  have hcontent : textContent? (r.apply "--text: \"$a\";".toList) =
      some (Value.decode (r.apply "$a".toList)) := by
    rw [htext, textContent?_declarationLine]
  have hplain : ∀ c ∈ "\\\"\n".toList, c ∉ "$a".toList := by simp
  have heq := hall _ _ _ m₁ m₂ 0 _ none _ _ "$a".toList doc r n _ _ hm₁ hm₂ hawaits₁ hawaits₂ htitle
    htext (by decide) hplain hdoc helement hlast hshown hn hmem hcontent
  rw [happly] at heq
  revert heq
  decide

end Markup

end StyledMarkup
