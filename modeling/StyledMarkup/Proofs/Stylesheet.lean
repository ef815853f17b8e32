import StyledMarkup.Proofs.Document.Order
import StyledMarkup.Proofs.Mixin
import StyledMarkup.Proofs.Rendering

/-!
# The lines of the stylesheet

The stylesheet has one line for each node that is not left out, in order of creation. The walk that
renders it counts its own depth, which agrees with the depth of the node in the document. A block is
left out together with its closing brace, so the braces of the lines match, and a closing brace is
indented as the line that opens its block.
-/

namespace StyledMarkup

/-! ## The document that is rendered -/

namespace Document

/-- What the lines of a document depend on. -/
structure Orderly (doc : Document) : Prop where
  linked : doc.Linked
  nested : doc.Nested
  renderable : doc.Renderable
  trimmed : ∀ i n, doc.get? i = some n → n.raw.IsTrimmed

section Suppress

variable (doc : Document)

@[simp] theorem size_suppressDeclarations : doc.suppressDeclarations.size = doc.size := by
  simp [size, suppressDeclarations]

@[simp] theorem parent?_suppressDeclarations (j : NodeId) :
    doc.suppressDeclarations.parent? j = doc.parent? j := by
  rw [parent?, parent?, get?_suppressDeclarations]
  cases doc.get? j with
  | none => rfl
  | some n =>
    simp only [Option.map_some, Option.bind_some]
    split <;> rfl

theorem listed_suppressDeclarations (i : NodeId) (asAttribute : Bool) :
    doc.suppressDeclarations.listed i asAttribute = doc.listed i asAttribute := by
  have hattr := has_suppressDeclarations (p := Node.isAttribute) (fun _ ↦ rfl) doc
  simp only [listed, size_suppressDeclarations, parent?_suppressDeclarations, hattr]

variable {doc}

theorem Linked.suppressDeclarations (h : doc.Linked) : doc.suppressDeclarations.Linked := by
  refine ⟨?_, ?_, ?_, ?_⟩
  · intro j i hj
    rw [parent?_suppressDeclarations] at hj
    exact h.parent_lt hj
  · simp only [size_suppressDeclarations, parent?_suppressDeclarations]
    exact h.roots_eq
  all_goals
    intro i n' hn'
    rw [get?_suppressDeclarations] at hn'
    obtain ⟨n, hn, rfl⟩ := Option.map_eq_some_iff.mp hn'
    rw [listed_suppressDeclarations]
  · rw [← h.attrs_eq hn]
    split <;> rfl
  · rw [← h.children_eq hn]
    split <;> rfl

theorem Nested.suppressDeclarations (h : doc.Nested) : doc.suppressDeclarations.Nested := by
  intro i j k hj hik hkj
  have hbelow : doc.suppressDeclarations.Below = doc.Below := by
    simp only [Below, parent?_suppressDeclarations]
  rw [hbelow]
  exact h (by rwa [parent?_suppressDeclarations] at hj) hik hkj

end Suppress

theorem orderly_of_parse {settings : Settings} {base : Path} {source : Text} {doc : Document}
    (h : Document.parse settings base source = .ok doc) : doc.suppressDeclarations.Orderly := by
  obtain ⟨m, hm, -, hfinish⟩ := exists_reachable_of_parse h
  have hsound := hm.sound.builder_sound
  obtain ⟨rfl, hscopes⟩ := hsound.finish_eq_ok hfinish
  have hlinked := hsound.doc_sound.linked
  refine ⟨hlinked.suppressDeclarations, ?_, hsound.renderable hscopes, ?_⟩
  · exact (hm.logged.recorded.nested hlinked).suppressDeclarations
  · intro i n' hn'
    obtain ⟨n, hn, hraw, -, -⟩ := exists_of_suppressDeclarations hn'
    rw [hraw]
    exact hsound.doc_sound.trimmed i n hn

end Document

namespace Stylesheet

variable {doc : Document} {i j : NodeId} {n : Node}

/-! ## Nodes that are shown -/

/-- Neither the node nor any of its ancestors is suppressed, an attribute or a text marker. -/
def isShown (doc : Document) (j : NodeId) : Bool :=
  (j :: doc.ancestorsWithin doc.size j).all fun i ↦
    !doc.has (fun n ↦ n.suppressed || n.isAttribute || Classification.isTextMarker n.raw) i

/-- The nodes with a line in the stylesheet, in order of creation. -/
def shown (doc : Document) : List NodeId :=
  (List.range doc.size).filter (isShown doc)

theorem isShown_eq (doc : Document) (j : NodeId) :
    isShown doc j = (j :: doc.ancestorsWithin doc.size j).all fun i ↦ !doc.has isHidden i :=
  rfl

theorem isShown_of_root (hj : doc.parent? j = none) : isShown doc j = !doc.has isHidden j := by
  rw [isShown_eq, Document.ancestorsWithin_of_root hj, List.all_cons, List.all_nil, Bool.and_true]

theorem isShown_of_parent (h : doc.Linked) {p : NodeId} (hj : doc.parent? j = some p) :
    isShown doc j = (!doc.has isHidden j && isShown doc p) := by
  rw [isShown_eq, isShown_eq, h.coherent.ancestors_of_parent hj, List.all_cons]

theorem not_hidden_of_isShown (hj : isShown doc j = true) : doc.has isHidden j = false := by
  rw [isShown_eq, List.all_cons, Bool.and_eq_true, Bool.not_eq_true'] at hj
  exact hj.1

theorem isShown_of_within (h : doc.Linked) (hij : doc.Within i j) (hj : isShown doc j = true) :
    isShown doc i = true := by
  rcases hij with rfl | hij
  · exact hj
  · induction hij with
    | single hp =>
      rw [isShown_of_parent h hp, Bool.and_eq_true] at hj
      exact hj.2
    | tail _ hp ih =>
      rw [isShown_of_parent h hp, Bool.and_eq_true] at hj
      exact ih hj.2

theorem not_isAttribute_of_isShown (hj : isShown doc j = true) :
    doc.has Node.isAttribute j = false := by
  have hhidden := not_hidden_of_isShown hj
  unfold Document.has at hhidden ⊢
  cases hn : doc.get? j with
  | none => rfl
  | some n =>
    rw [hn, Option.any_some, isHidden, Bool.or_eq_false_iff, Bool.or_eq_false_iff] at hhidden
    exact hhidden.1.2

/-! ## The walk -/

/-- The nodes shown below a node and the node itself, at most `bound` levels deep, each before what
is below it. -/
def shownWithin (doc : Document) : (bound : Nat) → NodeId → List NodeId
  | 0, _ => []
  | bound + 1, i =>
    match doc.get? i with
    | none => []
    | some n => if isHidden n then [] else i :: n.children.flatMap (shownWithin doc bound)

theorem shownWithin_of_hidden (hn : doc.get? i = some n) (hhidden : isHidden n = true)
    (bound : Nat) : shownWithin doc bound i = [] := by
  cases bound with
  | zero => rfl
  | succ bound => simp only [shownWithin, hn, if_pos hhidden]

theorem shownWithin_succ (hn : doc.get? i = some n) (hshown : isHidden n = false) (bound : Nat) :
    shownWithin doc (bound + 1) i = i :: n.children.flatMap (shownWithin doc bound) := by
  simp only [shownWithin, hn, hshown, Bool.false_eq_true, if_false]

theorem mem_shownWithin_cases {bound : Nat} (hj : j ∈ shownWithin doc bound i) :
    ∃ bound' n, bound = bound' + 1 ∧ doc.get? i = some n ∧ isHidden n = false ∧
      (j = i ∨ ∃ c ∈ n.children, j ∈ shownWithin doc bound' c) := by
  cases bound with
  | zero => cases hj
  | succ bound =>
    rw [shownWithin] at hj
    split at hj
    · cases hj
    · next n hn =>
      split at hj
      · cases hj
      · next hshown =>
        rw [List.mem_cons, List.mem_flatMap] at hj
        exact ⟨bound, n, rfl, hn, Bool.of_not_eq_true hshown, hj⟩

section Walk

variable (h : doc.Linked)
include h

theorem within_of_mem_shownWithin {bound : Nat} (hj : j ∈ shownWithin doc bound i) :
    doc.Within i j := by
  induction bound generalizing i with
  | zero => cases hj
  | succ bound ih =>
    obtain ⟨_, n, heq, hn, -, rfl | ⟨c, hc, hj⟩⟩ := mem_shownWithin_cases hj
    · exact Or.inl rfl
    · obtain rfl := Nat.succ.inj heq
      exact Or.inr ((ih hj).of_child ((h.mem_children hn).mp hc).1)

theorem isShown_of_mem_shownWithin {bound : Nat}
    (hi : ∀ p, doc.parent? i = some p → isShown doc p = true)
    (hj : j ∈ shownWithin doc bound i) : isShown doc j = true := by
  induction bound generalizing i with
  | zero => cases hj
  | succ bound ih =>
    obtain ⟨_, n, heq, hn, hhidden, hcases⟩ := mem_shownWithin_cases hj
    have hshown : isShown doc i = true := by
      rw [← Document.has_of_get? hn isHidden] at hhidden
      cases hp : doc.parent? i with
      | none => rw [isShown_of_root hp, hhidden, Bool.not_false]
      | some p => rw [isShown_of_parent h hp, hhidden, hi p hp, Bool.not_false, Bool.and_true]
    rcases hcases with rfl | ⟨c, hc, hj⟩
    · exact hshown
    · obtain rfl := Nat.succ.inj heq
      refine ih ?_ hj
      intro p hp
      rw [((h.mem_children hn).mp hc).1] at hp
      exact Option.some.inj hp ▸ hshown

theorem mem_shownWithin {bound : Nat} (hij : doc.Within i j) (hj : isShown doc j = true)
    (hsize : j < doc.size) (hbound : j < i + bound) : j ∈ shownWithin doc bound i := by
  induction bound generalizing i with
  | zero => exact absurd hbound (Nat.not_lt_of_le (hij.le h))
  | succ bound ih =>
    obtain ⟨n, hn⟩ := Document.exists_get? (Nat.lt_of_le_of_lt (hij.le h) hsize)
    have hhidden := not_hidden_of_isShown (isShown_of_within h hij hj)
    rw [Document.has_of_get? hn] at hhidden
    rw [shownWithin_succ hn hhidden, List.mem_cons, List.mem_flatMap]
    rcases hij with rfl | hij
    · exact Or.inl rfl
    · obtain ⟨c, hc, hcj⟩ := Relation.TransGen.head'_iff.mp hij
      have hcj : doc.Within c j := by
        rcases Relation.reflTransGen_iff_eq_or_transGen.mp hcj with rfl | hcj
        · exact Or.inl rfl
        · exact Or.inr hcj
      -- The next node on the way down is shown too, so it is listed among the children.
      have hattr := not_isAttribute_of_isShown (isShown_of_within h hcj hj)
      refine Or.inr ⟨c, (h.mem_children hn).mpr ⟨hc, hattr⟩, ih hcj ?_⟩
      have hlt : i + bound + 1 ≤ c + bound := Nat.add_lt_add_right (h.parent_lt hc) bound
      exact Nat.lt_of_lt_of_le hbound hlt

/-- Walks from nodes with nothing in common, in increasing order, stay in increasing order. -/
theorem sorted_flatMap (hnested : doc.Nested) {ids : List NodeId} {bound : Nat}
    (hids : ids.Pairwise (· < ·)) (hnot : ∀ a ∈ ids, ∀ b ∈ ids, ¬doc.Below a b)
    (hwalk : ∀ a ∈ ids, (shownWithin doc bound a).Pairwise (· < ·)) :
    (ids.flatMap (shownWithin doc bound)).Pairwise (· < ·) := by
  refine List.pairwise_flatMap.mpr ⟨hwalk, hids.imp_of_mem ?_⟩
  intro a b ha hb hab x hx y hy
  exact hnested.lt_of_within h hab (hnot a ha b hb) (within_of_mem_shownWithin h hx)
    (within_of_mem_shownWithin h hy)

theorem sorted_shownWithin (hnested : doc.Nested) (bound : Nat) (i : NodeId) :
    (shownWithin doc bound i).Pairwise (· < ·) := by
  induction bound generalizing i with
  | zero => exact List.Pairwise.nil
  | succ bound ih =>
    rw [shownWithin]
    split
    · exact List.Pairwise.nil
    · next n hn =>
      split
      · exact List.Pairwise.nil
      · have hparent : ∀ c ∈ n.children, doc.parent? c = some i :=
          fun c hc ↦ ((h.mem_children hn).mp hc).1
        refine List.Pairwise.cons ?_ (sorted_flatMap h hnested (h.sorted_children hn) ?_
          fun c _ ↦ ih c)
        · intro j hj
          obtain ⟨c, hc, hj⟩ := List.mem_flatMap.mp hj
          exact ((within_of_mem_shownWithin h hj).of_child (hparent c hc)).lt h.coherent
        · intro a ha b hb
          exact h.coherent.not_below_sibling (hparent a ha) (hparent b hb)

/-- The walk over the whole document meets the shown nodes in order of creation. -/
theorem shown_eq_flatMap (hnested : doc.Nested) :
    shown doc = doc.roots.flatMap (shownWithin doc doc.size) := by
  have hroot : ∀ i ∈ doc.roots, doc.parent? i = none := fun i hi ↦ (h.mem_roots.mp hi).2
  have hsorted : (doc.roots.flatMap (shownWithin doc doc.size)).Pairwise (· < ·) := by
    apply sorted_flatMap h hnested h.sorted_roots
    · intro a _ b hb
      exact Document.not_below_of_root (hroot b hb)
    · exact fun a _ ↦ sorted_shownWithin h hnested doc.size a
  refine (List.pairwise_lt_range.filter _).eq_of_mem_iff hsorted ?_
  intro j
  rw [List.mem_filter, List.mem_range, List.mem_flatMap]
  constructor
  · rintro ⟨hsize, hj⟩
    obtain ⟨i, hi, hij⟩ := h.exists_root hsize
    exact ⟨i, hi, mem_shownWithin h hij hj hsize (Nat.lt_of_lt_of_le hsize (Nat.le_add_left _ _))⟩
  · rintro ⟨i, hi, hj⟩
    constructor
    · rcases within_of_mem_shownWithin h hj with rfl | hij
      · exact (h.mem_roots.mp hi).1
      · exact hij.lt_size
    · apply isShown_of_mem_shownWithin h _ hj
      intro p hp
      rw [hroot i hi] at hp
      cases hp

end Walk

/-! ## The lines -/

/-- How far the line of a node is indented: a closing brace stands one level up. -/
def level (doc : Document) (j : NodeId) : Nat :=
  if doc.has Node.isBlockClose j then doc.depth j - 1 else doc.depth j

def lineAt (r : Resolver) (doc : Document) (j : NodeId) : Text :=
  match doc.get? j with
  | none => []
  | some n => indent (level doc j) (if n.isBlockClose then ['}'] else r.apply n.raw)

section Lines

variable (r : Resolver)

theorem line_eq_lineAt (hn : doc.get? i = some n)
    (hclose : n.isBlockClose = true → doc.depth i ≠ 0) :
    line r (doc.depth i) n = .ok (lineAt r doc i) := by
  simp only [line, lineAt, level, hn, Document.has_of_get? hn]
  split
  · next hbrace =>
    obtain ⟨level, hlevel⟩ := Nat.exists_eq_succ_of_ne_zero (hclose hbrace)
    rw [hlevel]
    rfl
  · rfl

theorem emitAll_eq_flatMap {depth bound : Nat} {ids : List NodeId}
    (hids : ∀ i ∈ ids, ∀ t, doc.treeWithin bound i = some t →
      emit r depth t = .ok ((shownWithin doc bound i).map (lineAt r doc))) :
    emitAll r depth (ids.filterMap (doc.treeWithin bound)) =
      .ok ((ids.flatMap (shownWithin doc bound)).map (lineAt r doc)) := by
  induction ids with
  | nil => rfl
  | cons i ids ih =>
    have hrest := ih fun j hj ↦ hids j (List.mem_cons_of_mem i hj)
    cases htree : doc.treeWithin bound i with
    | none =>
      have hnone : shownWithin doc bound i = [] := by
        cases bound with
        | zero => rfl
        | succ bound =>
          rw [Document.treeWithin, Option.map_eq_none_iff] at htree
          rw [shownWithin, htree]
      rw [List.filterMap_cons_none htree, List.flatMap_cons, hnone, List.nil_append, hrest]
    | some t =>
      rw [List.filterMap_cons_some htree, emitAll, hids i List.mem_cons_self t htree, hrest,
        List.flatMap_cons, List.map_append]
      rfl

/-- The depth that the walk counts is the depth of the node. -/
theorem emit_eq_map (h : doc.Linked) {bound : Nat} {t : Tree}
    (ht : doc.treeWithin bound i = some t)
    (hclose : doc.has Node.isBlockClose i = true → doc.depth i ≠ 0) :
    emit r (doc.depth i) t = .ok ((shownWithin doc bound i).map (lineAt r doc)) := by
  induction bound generalizing i t with
  | zero => cases ht
  | succ bound ih =>
    rw [Document.treeWithin] at ht
    obtain ⟨n, hn, rfl⟩ := Option.map_eq_some_iff.mp ht
    rw [Document.has_of_get? hn] at hclose
    have hchildren : ∀ c ∈ n.children, ∀ t, doc.treeWithin bound c = some t →
        emit r (doc.depth i + 1) t = .ok ((shownWithin doc bound c).map (lineAt r doc)) := by
      intro c hc t ht
      have hdepth := h.coherent.depth_of_parent ((h.mem_children hn).mp hc).1
      rw [← hdepth]
      apply ih ht
      intro _
      rw [hdepth]
      exact Nat.succ_ne_zero _
    by_cases hhidden : isHidden n = true
    · rw [emit, if_pos hhidden, shownWithin_of_hidden hn hhidden]
      rfl
    · rw [emit, if_neg hhidden, line_eq_lineAt r hn hclose, emitAll_eq_flatMap r hchildren,
        shownWithin_succ hn (Bool.of_not_eq_true hhidden)]
      rfl

end Lines

/-! ## The braces -/

/-- A brace that ends a line, with the level of the line. -/
inductive Brace where
  | opening (level : Nat)
  | closing (level : Nat)
  deriving DecidableEq, Repr

/-- The brace of a node that opens or closes a block. -/
def brace? (doc : Document) (j : NodeId) : Option Brace :=
  if doc.has Node.isBlockOpen j then some (.opening (level doc j))
  else if doc.has Node.isBlockClose j then some (.closing (level doc j))
  else none

/-- Every brace has its partner, at the same level. -/
inductive Matched : List Brace → Prop
  | nil : Matched []
  | block {level : Nat} {inner rest : List Brace} (hinner : Matched inner) (hrest : Matched rest) :
    Matched (.opening level :: (inner ++ .closing level :: rest))

theorem Matched.append {front back : List Brace} (h : Matched front) (hback : Matched back) :
    Matched (front ++ back) := by
  induction h with
  | nil => exact hback
  | block hinner _ _ ih =>
    rw [List.cons_append, List.append_assoc, List.cons_append]
    exact .block hinner ih

theorem matched_flatMap {bound : Nat} {ids : List NodeId}
    (hids : ∀ i ∈ ids, Matched ((shownWithin doc bound i).filterMap (brace? doc))) :
    Matched ((ids.flatMap (shownWithin doc bound)).filterMap (brace? doc)) := by
  induction ids with
  | nil => exact .nil
  | cons i ids ih =>
    rw [List.flatMap_cons, List.filterMap_append]
    exact (hids i List.mem_cons_self).append (ih fun j hj ↦ hids j (List.mem_cons_of_mem i hj))

section Braces

variable (h : doc.Orderly)
include h

theorem brace?_of_leaf (hn : doc.get? i = some n) (hshown : isHidden n = false)
    (hclose : n.isBlockClose = false) (hchildren : n.children = []) : brace? doc i = none := by
  have hopen : n.isBlockOpen = false := by
    apply Bool.eq_false_iff.mpr
    intro hopen
    rw [← Node.leavesOpen_of_isTrimmed (h.trimmed i n hn)] at hopen
    simp [isHidden, h.renderable.leaf hn hchildren hopen] at hshown
  simp [brace?, Document.has_of_get? hn, hopen, hclose]

theorem brace?_of_opener (hn : doc.get? i = some n) (hclose : n.isBlockClose = false)
    (hopen : n.leavesOpen = true) : brace? doc i = some (.opening (doc.depth i)) := by
  rw [Node.leavesOpen_of_isTrimmed (h.trimmed i n hn)] at hopen
  simp [brace?, level, Document.has_of_get? hn, hopen, hclose]

/-- A closing brace stands at the level of its block. -/
theorem brace?_of_closer (hn : doc.get? i = some n) (hclose : n.isBlockClose = true) {p : NodeId}
    (hparent : doc.parent? i = some p) : brace? doc i = some (.closing (doc.depth p)) := by
  have hopen : n.isBlockOpen = false := by
    rw [Node.isBlockOpen, Node.raw_of_isBlockClose (h.trimmed i n hn) hclose]
    rfl
  simp [brace?, level, Document.has_of_get? hn, hopen, hclose,
    h.linked.coherent.depth_of_parent hparent]

theorem shownWithin_of_closer (hn : doc.get? i = some n) (hclose : n.isBlockClose = true)
    (hkind : n.kind = .generic) (hsuppressed : n.suppressed = false) (hchildren : n.children = [])
    {bound : Nat} (hbound : bound ≠ 0) : shownWithin doc bound i = [i] := by
  have hshown : isHidden n = false := by
    rw [isHidden, hsuppressed, Node.isAttribute, hkind,
      Node.raw_of_isBlockClose (h.trimmed i n hn) hclose]
    rfl
  obtain ⟨bound, rfl⟩ := Nat.exists_eq_succ_of_ne_zero hbound
  rw [Nat.succ_eq_add_one, shownWithin_succ hn hshown, hchildren, List.flatMap_nil]

/-- A block is shown with both its braces or not at all. -/
theorem matched_shownWithin {bound : Nat} (hbound : doc.size ≤ i + bound)
    (hclose : doc.has Node.isBlockClose i = false) :
    Matched ((shownWithin doc bound i).filterMap (brace? doc)) := by
  induction bound generalizing i with
  | zero => exact .nil
  | succ bound ih =>
    cases hn : doc.get? i with
    | none =>
      rw [shownWithin, hn]
      exact .nil
    | some n =>
      rw [Document.has_of_get? hn] at hclose
      by_cases hhidden : isHidden n = true
      · rw [shownWithin_of_hidden hn hhidden]
        exact .nil
      · have hshown := Bool.of_not_eq_true hhidden
        rw [shownWithin_succ hn hshown]
        by_cases hchildren : n.children = []
        · rw [hchildren, List.flatMap_nil,
            List.filterMap_cons_none (brace?_of_leaf h hn hshown hclose hchildren)]
          exact .nil
        · obtain ⟨hopen, before, c, m, hsplit, hbefore, hm, hbrace, hkind, hsuppressed, hnone⟩ :=
            h.renderable.block hn hchildren
          have hdeep := h.renderable.size_le_of_child hbound hn
          have hc : c ∈ n.children := by simp [hsplit]
          have hbound : bound ≠ 0 := by
            rintro rfl
            exact absurd (Document.lt_size_of_get? hm) (Nat.not_lt_of_le (hdeep c hc))
          have hparent := ((h.linked.mem_children hn).mp hc).1
          rw [List.filterMap_cons_some (brace?_of_opener h hn hclose hopen), hsplit,
            List.flatMap_append, List.filterMap_append, List.flatMap_singleton,
            shownWithin_of_closer h hm hbrace hkind hsuppressed hnone hbound,
            List.filterMap_cons_some (brace?_of_closer h hm hbrace hparent)]
          refine .block (matched_flatMap fun j hj ↦ ih (hdeep j ?_) (hbefore j hj)) .nil
          simp [hsplit, hj]

end Braces

/-- The stylesheet of a parsed document has one line for each shown node, in order of creation and
indented by its depth, and the braces of these lines match level by level. -/
theorem render_eq_shown {settings : Settings} {base : Path} {source : Text} {doc : Document}
    (h : Document.parse settings base source = .ok doc) (r : Resolver) :
    render r doc.suppressDeclarations =
        .ok (joinLines ((shown doc.suppressDeclarations).map
          (lineAt r doc.suppressDeclarations))) ∧
      Matched ((shown doc.suppressDeclarations).filterMap (brace? doc.suppressDeclarations)) := by
  have horderly := Document.orderly_of_parse h
  have hlinked := horderly.linked
  have hroot := horderly.renderable.root
  rw [shown_eq_flatMap hlinked horderly.nested]
  constructor
  · rw [render, Document.forest, emitAll_eq_flatMap r ?_]
    · rfl
    · intro i hi t ht
      rw [← Document.depth_of_root (hlinked.mem_roots.mp hi).2]
      apply emit_eq_map r hlinked ht
      rw [hroot i hi]
      intro hclose
      cases hclose
  · apply matched_flatMap
    intro i hi
    exact matched_shownWithin horderly (Nat.le_add_left _ _) (hroot i hi)

theorem render_eq_shown_nested :
    ∃ doc, Document.parse ⟨(Library.ofList []).load, 32⟩ ⟨[]⟩
        "div \x7b\n--id: \"a\";\n$x: 1;\n.b \x7b\nc: d;\n\x7d\n\x7d".toList = .ok doc ∧
      shown doc.suppressDeclarations = [0, 3, 4, 5, 6] ∧
      render {} doc.suppressDeclarations = .ok (joinLines ["div \x7b".toList, "    .b \x7b".toList,
        "        c: d;".toList, "    \x7d".toList, "\x7d".toList]) ∧
      Matched [.opening 0, .opening 1, .closing 1, .closing 0] := by
  have hscan : Statement.scan "div \x7b\n--id: \"a\";\n$x: 1;\n.b \x7b\nc: d;\n\x7d\n\x7d".toList =
      .ok [⟨"div \x7b".toList, 1⟩, ⟨"--id: \"a\";".toList, 2⟩, ⟨"$x: 1;".toList, 3⟩,
        ⟨".b \x7b".toList, 4⟩, ⟨"c: d;".toList, 5⟩, ⟨"\x7d".toList, 6⟩, ⟨"\x7d".toList, 7⟩] := by
    cbv
  obtain ⟨doc, hdoc, hshown, hlines, hbraces⟩ :
      ∃ doc, Document.parse ⟨(Library.ofList []).load, 32⟩ ⟨[]⟩
        "div \x7b\n--id: \"a\";\n$x: 1;\n.b \x7b\nc: d;\n\x7d\n\x7d".toList = .ok doc ∧
      shown doc.suppressDeclarations = [0, 3, 4, 5, 6] ∧
      [0, 3, 4, 5, 6].map (lineAt {} doc.suppressDeclarations) = ["div \x7b".toList,
        "    .b \x7b".toList, "        c: d;".toList, "    \x7d".toList, "\x7d".toList] ∧
      [0, 3, 4, 5, 6].filterMap (brace? doc.suppressDeclarations) =
        [.opening 0, .opening 1, .closing 1, .closing 0] := by
    refine ⟨?_, ?_, ?_⟩
    rotate_left
    · rw [Document.parse, hscan]
      simp only [Document.ofStatements]
      rw [Builder.feed_next rfl, Builder.feed_next rfl, Builder.feed_next rfl,
        Builder.feed_next rfl, Builder.feed_next rfl, Builder.feed_next rfl, Builder.feed_next rfl,
        Builder.feed_nil]
      rfl
    · decide +kernel
  have hrender := render_eq_shown hdoc {}
  rw [hshown, hlines, hbraces] at hrender
  exact ⟨doc, hdoc, hshown, hrender⟩

end Stylesheet

end StyledMarkup
