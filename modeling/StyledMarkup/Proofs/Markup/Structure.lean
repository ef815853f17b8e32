import StyledMarkup.Proofs.Rendering
import StyledMarkup.Proofs.Variable

/-!
# Markup follows the structure of the document

The markup is rendered with a stack of open elements, and a closing brace is matched to an element
by depth alone. On the trees of a parsed document this comes to the same as rendering each element
around what is below it: its opening tag, the lines of its children one level deeper, its closing
tag. No stack is needed, and no brace closes an element other than its own.
-/

namespace StyledMarkup

/-! ## Literal text -/

namespace Classification

/-- Resolving variables leaves a text marker a text marker. -/
theorem isTextMarker_apply (r : Resolver) {t : Text} (h : isTextMarker t = true) :
    isTextMarker (r.apply t) = true := by
  refine r.apply_induction (P := fun t ↦ isTextMarker t = true) h ?_
  intro lookup t ht
  obtain ⟨blanks, rest, rfl, hblank⟩ := isTextMarker_iff.mp ht
  have hplain : '$' ∉ textMarker ++ blanks ++ [':'] := by
    intro hmem
    simp only [List.mem_append, List.mem_singleton] at hmem
    rcases hmem with (hmem | hmem) | hmem
    · revert hmem
      decide
    · have := hblank _ hmem
      revert this
      decide
    · revert hmem
      decide
  have hsplit : textMarker ++ blanks ++ ':' :: rest = textMarker ++ blanks ++ [':'] ++ rest := by
    simp
  rw [hsplit, Token.substitute_append_of_not_mem lookup hplain]
  exact isTextMarker_iff.mpr ⟨blanks, Token.substitute lookup rest, by simp, hblank⟩

theorem textContent?_marker {blanks rest : Text} (hblank : ∀ c ∈ blanks, Text.isBlank c = true) :
    textContent? (textMarker ++ blanks ++ ':' :: rest) =
      some (Value.unescape (Value.extract rest)) := by
  have hsplit : Text.splitAt? ':' (textMarker ++ blanks ++ ':' :: rest) =
      some (textMarker ++ blanks, rest) := by
    refine Text.splitAt?_eq_some_iff.mpr ⟨rfl, fun hmem ↦ ?_⟩
    rcases List.mem_append.mp hmem with hmem | hmem
    · exact absurd hmem (by decide)
    · exact absurd (hblank _ hmem) (by decide)
  rw [textContent?, if_pos (isTextMarker_iff.mpr ⟨blanks, rest, rfl, hblank⟩), hsplit]
  rfl

end Classification

/-! ## Nodes of a tree -/

/-- Every node of the tree, attributes aside, has this property. -/
inductive Tree.Everywhere (P : Node → Prop) : Tree → Prop
  | mk {n : Node} {attrs : List Node} {children : List Tree} (hnode : P n)
    (hchildren : ∀ t ∈ children, t.Everywhere P) : Everywhere P (.mk n attrs children)

namespace Tree.Everywhere

variable {P : Node → Prop} {n : Node} {attrs : List Node} {children : List Tree}

theorem node (h : (Tree.mk n attrs children).Everywhere P) : P n := by
  cases h
  assumption

theorem child (h : (Tree.mk n attrs children).Everywhere P) {t : Tree} (ht : t ∈ children) :
    t.Everywhere P := by
  cases h with
  | mk _ hchildren => exact hchildren t ht

end Tree.Everywhere

theorem Document.everywhere_treeWithin {doc : Document} {P : Node → Prop}
    (h : ∀ i n, doc.get? i = some n → P n) {bound : Nat} {i : NodeId} {t : Tree}
    (ht : doc.treeWithin bound i = some t) : t.Everywhere P := by
  induction bound generalizing i t with
  | zero => cases ht
  | succ bound ih =>
    rw [treeWithin] at ht
    obtain ⟨n, hn, rfl⟩ := Option.map_eq_some_iff.mp ht
    refine .mk (h i n hn) fun t ht ↦ ?_
    obtain ⟨j, -, hj⟩ := List.mem_filterMap.mp ht
    exact ih hj

/-! ## Rendering without a stack -/

namespace Markup

/-- The literal text that a text marker stands for. -/
def literal (r : Resolver) (n : Node) : Text :=
  (Classification.textContent? (r.apply n.raw)).getD []

theorem textContent?_apply (r : Resolver) {n : Node}
    (h : Classification.isTextMarker n.raw = true) :
    Classification.textContent? (r.apply n.raw) = some (literal r n) := by
  obtain ⟨blanks, rest, happly, hblank⟩ :=
    Classification.isTextMarker_iff.mp (Classification.isTextMarker_apply r h)
  rw [literal, happly, Classification.textContent?_marker hblank]
  rfl

mutual

/-- The lines of a tree: those of an element that opens a block go around those of its children. -/
def linesOf (r : Resolver) (depth : Nat) : Tree → List Text
  | .mk n attrs children =>
    if n.suppressed then []
    else
      match n.kind with
      | .attribute .. => []
      | .element tag classes =>
        let opening := openTag tag (attributes r classes attrs)
        if n.isBlockOpen then
          indent depth opening :: (linesOfAll r (depth + 1) children ++
            if Vocabulary.isVoid tag then [] else [indent depth (closeTag tag)])
        else if Vocabulary.isVoid tag then [indent depth opening]
        else [indent depth (opening ++ closeTag tag)]
      | _ =>
        if n.isBlockClose then []
        else if Classification.isTextMarker n.raw then
          indent depth (literal r n) :: linesOfAll r (depth + 1) children
        else linesOfAll r (depth + 1) children

def linesOfAll (r : Resolver) (depth : Nat) : List Tree → List Text
  | [] => []
  | t :: rest => linesOf r depth t ++ linesOfAll r depth rest

end

theorem linesOfAll_append (r : Resolver) (depth : Nat) (ts us : List Tree) :
    linesOfAll r depth (ts ++ us) = linesOfAll r depth ts ++ linesOfAll r depth us := by
  induction ts with
  | nil => rw [List.nil_append, linesOfAll, List.nil_append]
  | cons t ts ih => rw [List.cons_append, linesOfAll, linesOfAll, ih, List.append_assoc]

/-! ## Kinds of nodes -/

/-- What a node is for the markup: nothing, an element, or another statement. -/
inductive Part (n : Node) : Prop
  | hidden (h : n.suppressed = true ∨ n.isAttribute = true)
  | element (tag : Text) (classes : Option Text) (hshown : n.suppressed = false)
    (hkind : n.kind = .element tag classes)
  | statement (hshown : n.suppressed = false)
    (hkind : (∃ name params, n.kind = .mixin name params) ∨ n.kind = .generic)

theorem part (n : Node) : Part n := by
  by_cases hshown : n.suppressed = true
  · exact .hidden (Or.inl hshown)
  · have hshown := Bool.of_not_eq_true hshown
    rcases hkind : n.kind with ⟨tag, classes⟩ | ⟨name, value, isEvent, multilineOpen⟩ |
      ⟨name, params⟩ | _
    · exact .element tag classes hshown hkind
    · exact .hidden (Or.inr (by rw [Node.isAttribute, hkind]))
    · exact .statement hshown (Or.inl ⟨name, params, hkind⟩)
    · exact .statement hshown (Or.inr hkind)

section Parts

variable (r : Resolver) (depth : Nat) (p : Progress) {n : Node} (attrs : List Node)
  (children : List Tree)

theorem walk_hidden (h : n.suppressed = true ∨ n.isAttribute = true) :
    walk r depth p (.mk n attrs children) = p ∧ linesOf r depth (.mk n attrs children) = [] := by
  rw [walk, linesOf]
  by_cases hshown : n.suppressed = true
  · rw [if_pos hshown, if_pos hshown]
    exact ⟨rfl, rfl⟩
  · rw [if_neg hshown, if_neg hshown]
    have hattr := h.resolve_left hshown
    unfold Node.isAttribute at hattr
    split at hattr
    · next hkind =>
      rw [hkind]
      exact ⟨rfl, rfl⟩
    · cases hattr

variable {tag : Text} {classes : Option Text}

theorem walk_element (hshown : n.suppressed = false) (hkind : n.kind = .element tag classes) :
    walk r depth p (.mk n attrs children) =
      walkAll r (depth + 1) (p.element depth n tag (attributes r classes attrs)) children := by
  rw [walk, if_neg (by simp [hshown]), hkind]

theorem linesOf_block (hshown : n.suppressed = false) (hkind : n.kind = .element tag classes)
    (hopen : n.isBlockOpen = true) :
    linesOf r depth (.mk n attrs children) =
      indent depth (openTag tag (attributes r classes attrs)) ::
        (linesOfAll r (depth + 1) children ++
          if Vocabulary.isVoid tag then [] else [indent depth (closeTag tag)]) := by
  rw [linesOf, if_neg (by simp [hshown]), hkind]
  exact if_pos hopen

theorem linesOf_line (hshown : n.suppressed = false) (hkind : n.kind = .element tag classes)
    (hopen : n.isBlockOpen = false) :
    linesOf r depth (.mk n attrs children) =
      [indent depth (openTag tag (attributes r classes attrs) ++
        if Vocabulary.isVoid tag then [] else closeTag tag)] := by
  rw [linesOf, if_neg (by simp [hshown]), hkind]
  dsimp only
  rw [if_neg (by simp [hopen])]
  split
  · rw [List.append_nil]
  · rfl

variable (hkind : (∃ name params, n.kind = .mixin name params) ∨ n.kind = .generic)
include hkind

theorem walk_statement (hshown : n.suppressed = false) :
    walk r depth p (.mk n attrs children) =
      walkAll r (depth + 1) (p.statement r depth n) children := by
  rw [walk, if_neg (by simp [hshown])]
  rcases hkind with ⟨name, params, hkind⟩ | hkind
  · rw [hkind]
  · rw [hkind]

theorem linesOf_statement (hshown : n.suppressed = false) (hclose : n.isBlockClose = false) :
    linesOf r depth (.mk n attrs children) =
      (if Classification.isTextMarker n.raw then [indent depth (literal r n)] else []) ++
        linesOfAll r (depth + 1) children := by
  rw [linesOf, if_neg (by simp [hshown])]
  rcases hkind with ⟨name, params, hkind⟩ | hkind <;>
  · rw [hkind]
    dsimp only
    rw [if_neg (by simp [hclose])]
    split <;> rfl

theorem linesOf_brace (hclose : n.isBlockClose = true) :
    linesOf r depth (.mk n attrs children) = [] := by
  rw [linesOf]
  rcases hkind with ⟨name, params, hkind⟩ | hkind <;>
  · rw [hkind]
    dsimp only
    rw [if_pos hclose, ite_self]

end Parts

/-! ## Agreement with the stack -/

namespace Progress

/-- More finished lines. -/
def extend (p : Progress) (more : List Text) : Progress :=
  { p with lines := more.reverse ++ p.lines }

/-- One more open element. -/
def enter (p : Progress) (e : OpenElement) : Progress :=
  { p with openElements := e :: p.openElements }

@[simp] theorem extend_nil (p : Progress) : p.extend [] = p := rfl

theorem extend_extend (p : Progress) (more evenMore : List Text) :
    (p.extend more).extend evenMore = p.extend (more ++ evenMore) := by
  simp [extend]

theorem extend_enter (p : Progress) (e : OpenElement) (more : List Text) :
    (p.enter e).extend more = (p.extend more).enter e := rfl

theorem Above.extend {p : Progress} {depth : Nat} (h : p.Above depth) (more : List Text) :
    (p.extend more).Above depth :=
  h.mono rfl

theorem statement_eq (p : Progress) (r : Resolver) (depth : Nat) {n : Node}
    (h : n.isBlockClose = false) :
    p.statement r depth n =
      p.extend
        (if Classification.isTextMarker n.raw then [indent depth (literal r n)] else []) := by
  rw [statement, if_neg (by simp [h])]
  split
  · next hmarker =>
    rw [textContent?_apply r hmarker]
    rfl
  · rfl

theorem element_of_line (p : Progress) (depth : Nat) {n : Node} (h : n.leavesOpen = false)
    (tag : Text) (attrs : List (Text × Text)) :
    p.element depth n tag attrs =
      p.extend [indent depth (openTag tag attrs ++
        if Vocabulary.isVoid tag then [] else closeTag tag)] := by
  unfold Node.leavesOpen at h
  rw [element, if_neg (by simp [h])]
  split
  · rw [List.append_nil]
    rfl
  · rfl

theorem element_of_block (p : Progress) (depth : Nat) {n : Node} (h : n.leavesOpen = true)
    (tag : Text) (attrs : List (Text × Text)) :
    p.element depth n tag attrs =
      (p.extend [indent depth (openTag tag attrs)]).enter ⟨tag, depth, n.line⟩ := by
  unfold Node.leavesOpen at h
  rw [element, if_pos h]
  rfl

/-- The brace of an element takes it off the stack. -/
theorem close_enter (p : Progress) (tag : Text) (depth line : Nat) :
    (p.enter ⟨tag, depth, line⟩).close (depth + 1) =
      p.extend (if Vocabulary.isVoid tag then [] else [indent depth (closeTag tag)]) := by
  simp only [close, enter, if_true]
  split <;> rfl

/-- The brace of any other block is too deep to take anything off. -/
theorem close_other {p : Progress} {depth : Nat} (h : p.Above depth) : p.close (depth + 1) = p := by
  rw [close]
  split
  · rfl
  · next top outer hstack =>
    have htop : top.depth < depth := h top (by rw [hstack, List.head?_cons])
    rw [if_neg (by omega)]

end Progress

theorem walkAll_eq {r : Resolver} {ts : List Tree}
    (h : ∀ t ∈ ts, ∀ depth p, Progress.Above p depth →
      walk r depth p t = p.extend (linesOf r depth t))
    (depth : Nat) (p : Progress) (hp : p.Above depth) :
    walkAll r depth p ts = p.extend (linesOfAll r depth ts) := by
  induction ts generalizing p with
  | nil => rw [walkAll, linesOfAll, Progress.extend_nil]
  | cons t ts ih =>
    rw [walkAll, h t List.mem_cons_self depth p hp,
      ih (fun t' ht' ↦ h t' (List.mem_cons_of_mem t ht')) _ (hp.extend _), linesOfAll,
      Progress.extend_extend]

/-- Walking a closed tree adds the lines of its structure and leaves the stack as it was. -/
theorem walk_eq (r : Resolver) {t : Tree} (h : t.Closed)
    (hraw : t.Everywhere fun n ↦ n.leavesOpen = n.isBlockOpen) :
    ∀ depth p, Progress.Above p depth → walk r depth p t = p.extend (linesOf r depth t) := by
  induction h with
  | leaf n attrs hclose hopen =>
    intro depth p _
    cases part n with
    | hidden hhidden =>
      obtain ⟨hwalk, hlines⟩ := walk_hidden r depth p attrs [] hhidden
      rw [hwalk, hlines, Progress.extend_nil]
    | element tag classes hshown hkind =>
      have hshut : n.leavesOpen = false := by
        apply Bool.eq_false_iff.mpr
        intro hleaves
        have hattr := hopen hleaves
        simp [Node.isAttribute, hkind] at hattr
      rw [walk_element r depth p attrs [] hshown hkind, walkAll,
        linesOf_line r depth attrs [] hshown hkind (hraw.node ▸ hshut)]
      exact p.element_of_line depth hshut tag _
    | statement hshown hkind =>
      rw [walk_statement r depth p attrs [] hkind hshown, walkAll, p.statement_eq r depth hclose,
        linesOf_statement r depth attrs [] hkind hshown hclose, linesOfAll, List.append_nil]
  | block n attrs before c cattrs hclose hopen _ hc hkind hshown ih =>
    intro depth p hp
    have hbefore := walkAll_eq fun t ht ↦ ih t ht (hraw.child (List.mem_append_left _ ht))
    have hlines : linesOfAll r (depth + 1) (before ++ [.mk c cattrs []]) =
        linesOfAll r (depth + 1) before := by
      rw [linesOfAll_append, linesOfAll, linesOfAll, linesOf_brace r _ cattrs [] (Or.inr hkind) hc,
        List.append_nil, List.append_nil]
    have hwalk : ∀ q, walkAll r (depth + 1) q (before ++ [.mk c cattrs []]) =
        (walkAll r (depth + 1) q before).close (depth + 1) := by
      intro q
      rw [walkAll_append, walkAll, walkAll, walk_brace r _ _ cattrs hc hkind hshown]
    cases part n with
    | hidden hhidden =>
      obtain ⟨hwalk, hlines⟩ := walk_hidden r depth p attrs (before ++ [.mk c cattrs []]) hhidden
      rw [hwalk, hlines, Progress.extend_nil]
    | element tag classes hshown hkind =>
      -- The element is on top of the stack when its brace comes.
      have habove : ((p.extend [indent depth (openTag tag (attributes r classes attrs))]).enter
          ⟨tag, depth, n.line⟩).Above (depth + 1) := by
        intro e he
        rw [← Option.some.inj he]
        exact Nat.lt_succ_self depth
      rw [walk_element r depth p attrs _ hshown hkind, hwalk, p.element_of_block depth hopen,
        hbefore _ _ habove, Progress.extend_enter, Progress.close_enter,
        linesOf_block r depth attrs _ hshown hkind (hraw.node ▸ hopen), hlines,
        Progress.extend_extend, Progress.extend_extend]
      rfl
    | statement hshown hkind =>
      have habove : (p.statement r depth n).Above depth := by
        rw [p.statement_eq r depth hclose]
        exact hp.extend _
      have hdeeper : (p.statement r depth n).Above (depth + 1) := fun e he ↦
        Nat.lt_succ_of_lt (habove e he)
      rw [walk_statement r depth p attrs _ hkind hshown, hwalk, hbefore _ _ hdeeper,
        Progress.close_other (habove.extend _), p.statement_eq r depth hclose,
        Progress.extend_extend, linesOf_statement r depth attrs _ hkind hshown hclose, hlines]

theorem render_eq_of_closed (r : Resolver) {doc : Document} (h : ∀ t ∈ doc.forest, t.Closed)
    (hraw : ∀ t ∈ doc.forest, t.Everywhere fun n ↦ n.leavesOpen = n.isBlockOpen) :
    render r doc = .ok (joinLines (linesOfAll r 0 doc.forest)) := by
  have hempty : ({} : Progress).Above 0 := by
    intro e he
    cases he
  unfold render
  rw [walkAll_eq (fun t ht ↦ walk_eq r (h t ht) (hraw t ht)) 0 {} hempty]
  simp [Progress.extend]

/-- Whatever its variables stand for, a parsed document is rendered element by element. -/
theorem render_eq_linesOfAll {settings : Settings} {base : Path} {source : Text} {doc : Document}
    (h : Document.parse settings base source = .ok doc) (r : Resolver) :
    render r doc.suppressDeclarations =
      .ok (joinLines (linesOfAll r 0 doc.suppressDeclarations.forest)) := by
  obtain ⟨b, hb, rfl, hscopes⟩ := exists_sound_of_parse h
  apply render_eq_of_closed r (hb.renderable hscopes).forest
  intro t ht
  obtain ⟨i, -, htree⟩ := List.mem_filterMap.mp ht
  refine Document.everywhere_treeWithin ?_ htree
  intro j n' hn'
  obtain ⟨n, hn, hraw, -, -⟩ := Document.exists_of_suppressDeclarations hn'
  rw [hb.leavesOpen_eq hn hraw, Node.isBlockOpen, Node.isBlockOpen, hraw]

theorem render_eq_linesOfAll_nested :
    ∃ doc, Document.parse ⟨(Library.ofList []).load, 32⟩ ⟨[]⟩
        "div \x7b\n.a \x7b\n--text: \"x\";\np q;\n\x7d\n\x7d".toList = .ok doc ∧
      linesOfAll {} 0 doc.suppressDeclarations.forest =
        ["<div>".toList, "        x".toList, "        <p></p>".toList, "</div>".toList] ∧
      render {} doc.suppressDeclarations =
        .ok (joinLines (linesOfAll {} 0 doc.suppressDeclarations.forest)) := by
  have hscan : Statement.scan "div \x7b\n.a \x7b\n--text: \"x\";\np q;\n\x7d\n\x7d".toList =
      .ok [⟨"div \x7b".toList, 1⟩, ⟨".a \x7b".toList, 2⟩, ⟨"--text: \"x\";".toList, 3⟩,
        ⟨"p q;".toList, 4⟩, ⟨"\x7d".toList, 5⟩, ⟨"\x7d".toList, 6⟩] := by
    cbv
  have hparse : ∃ doc, Document.parse ⟨(Library.ofList []).load, 32⟩ ⟨[]⟩
      "div \x7b\n.a \x7b\n--text: \"x\";\np q;\n\x7d\n\x7d".toList = .ok doc ∧
      linesOfAll {} 0 doc.suppressDeclarations.forest =
        ["<div>".toList, "        x".toList, "        <p></p>".toList, "</div>".toList] := by
    refine ⟨?_, ?_, ?_⟩
    rotate_left
    · rw [Document.parse, hscan]
      simp only [Document.ofStatements]
      rw [Builder.feed_next rfl, Builder.feed_next rfl, Builder.feed_next rfl,
        Builder.feed_next rfl, Builder.feed_next rfl, Builder.feed_next rfl, Builder.feed_nil]
      rfl
    · decide +kernel
  obtain ⟨doc, hdoc, hlines⟩ := hparse
  exact ⟨doc, hdoc, hlines, render_eq_linesOfAll hdoc {}⟩

end Markup

end StyledMarkup
