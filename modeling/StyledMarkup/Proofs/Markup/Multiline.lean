import StyledMarkup.Proofs.Document.Abridged
import StyledMarkup.Proofs.Markup.Structure
import StyledMarkup.Proofs.RoundTrip
import StyledMarkup.Proofs.Stylesheet

/-!
# Values that are spread over several statements

A declaration without a value is followed by the pieces of its value, and each piece is one more
attribute node of that name. The tag is folded from these nodes like from any others: the pieces of
an event handler are joined, but of any other attribute only the last piece is left. Main statement:
the value that a tag has for a name that is declared in this way and nowhere else, and that this tag
is a line of the markup whenever its element is shown.
-/

namespace StyledMarkup

/-! ## Nodes stay what they are -/

/-- What a node says of itself. Its lists may still grow. -/
def Node.core (n : Node) : Text × NodeKind × Option NodeId × Bool :=
  (n.raw, n.kind, n.parent, n.suppressed)

theorem Node.core_adopt (n : Node) (id : NodeId) (asAttribute : Bool) :
    (n.adopt id asAttribute).core = n.core := by
  cases asAttribute <;> rfl

theorem Document.exists_of_core {doc : Document} {j : NodeId} {raw : Text} {kind : NodeKind}
    {parent : Option NodeId} {suppressed : Bool}
    (h : (doc.get? j).map Node.core = some (raw, kind, parent, suppressed)) :
    ∃ n, doc.get? j = some n ∧ n.raw = raw ∧ n.kind = kind ∧ n.parent = parent ∧
      n.suppressed = suppressed := by
  obtain ⟨n, hn, hcore⟩ := Option.map_eq_some_iff.mp h
  exact ⟨n, hn, by simpa [Node.core] using hcore⟩

section Run

variable {settings : Settings} {base : Path} {source : Text} {m m' : Moment}

theorem Moment.Sound.core_of_moves (h : m.Sound settings) (hmoves : Moves settings m m')
    {j : NodeId} (hj : j < m.builder.doc.size) :
    (m'.builder.doc.get? j).map Node.core = (m.builder.doc.get? j).map Node.core ∧
      m.builder.doc.size ≤ m'.builder.doc.size := by
  have hintake : ∀ {ctx : Context} {b b' : Builder} {s : Statement} {role : Role}, b.Sound →
      b.Intake s ctx.isExpanding role b' → j < b.doc.size →
      (b'.doc.get? j).map Node.core = (b.doc.get? j).map Node.core ∧ b.doc.size ≤ b'.doc.size := by
    intro ctx b b' s role hb hintake hj
    refine ⟨?_, hintake.size_le⟩
    rcases hintake.doc_cases with ⟨-, hdoc⟩ | ⟨-, kind, suppressed, hdoc, -⟩
    · rw [hdoc]
    · rw [hdoc, Document.map_get?_graft b.doc s kind suppressed ctx.isExpanding Node.core_adopt
        hb.head?_lt, if_neg (Nat.ne_of_lt hj)]
  have hb := h.builder_sound
  cases hmoves with
  | next hstep =>
    exact hintake hb ((Builder.taken_of_step hstep).intake (h.rest_shaped _ List.mem_cons_self)
      hb.attentive) hj
  | nested hstep =>
    exact hintake hb ((Builder.taken_of_step hstep).intake (h.rest_shaped _ List.mem_cons_self)
      hb.attentive) hj
  | settle hsettle =>
    obtain ⟨rfl, -, -⟩ := Builder.settle_eq_ok hsettle
    exact ⟨rfl, Nat.le_refl _⟩

theorem Moment.Sound.core_of_runs (h : m.Sound settings) (hruns : Runs settings m m') {j : NodeId}
    (hj : j < m.builder.doc.size) :
    (m'.builder.doc.get? j).map Node.core = (m.builder.doc.get? j).map Node.core ∧
      m.builder.doc.size ≤ m'.builder.doc.size := by
  induction hruns with
  | refl => exact ⟨rfl, Nat.le_refl _⟩
  | tail hruns hmoves ih =>
    obtain ⟨hcore, hle⟩ := (h.runs hruns).core_of_moves hmoves (Nat.lt_of_lt_of_le hj ih.2)
    exact ⟨hcore.trans ih.1, ih.2.trans hle⟩

/-- The document of a source has the nodes of every point of the run. -/
theorem Reachable.core_of_parse (h : Reachable settings base source m) {doc : Document}
    (hdoc : Document.parse settings base source = .ok doc) {j : NodeId}
    (hj : j < m.builder.doc.size) :
    (doc.get? j).map Node.core = (m.builder.doc.get? j).map Node.core := by
  obtain ⟨m', hruns, ⟨-, hparse⟩ | ⟨e, -, hparse⟩⟩ := h.to_answer
  · have hfinish := hparse.symm.trans hdoc
    obtain ⟨rfl, -⟩ := (h.runs hruns).sound.builder_sound.finish_eq_ok hfinish
    exact (h.sound.core_of_runs hruns hj).1
  · rw [hparse] at hdoc
    cases hdoc

end Run

/-! ## The nodes of the pieces -/

theorem Document.core_foldl_graft {parent : Option NodeId} (kind : Statement → NodeKind)
    (expanded : Bool) (pieces : List Statement) {doc : Document}
    (hparent : ∀ p, parent = some p → p < doc.size) (j : Nat) :
    ((pieces.foldl (fun doc s ↦ doc.graft parent s (kind s) false expanded) doc).get? j).map
        Node.core =
      if j < doc.size then (doc.get? j).map Node.core
      else (pieces[j - doc.size]?).map fun s ↦ (s.text, kind s, parent, false) := by
  induction pieces generalizing doc with
  | nil =>
    split
    · rfl
    · next hj =>
      rw [List.foldl_nil, get?_eq_none_iff.mpr (Nat.le_of_not_lt hj)]
      rfl
  | cons s pieces ih =>
    rw [List.foldl_cons, ih fun p hp ↦ by rw [size_graft]; exact Nat.lt_succ_of_lt (hparent p hp),
      size_graft, map_get?_graft doc s (kind s) false expanded Node.core_adopt hparent]
    rcases Nat.lt_trichotomy j doc.size with hj | rfl | hj
    · rw [if_pos (Nat.lt_succ_of_lt hj), if_neg (Nat.ne_of_lt hj), if_pos hj]
    · simp [leaf, Node.core]
    · obtain ⟨k, rfl⟩ := Nat.exists_eq_add_of_lt hj
      rw [if_neg (by omega), if_neg (by omega), Nat.add_assoc, Nat.add_sub_cancel_left,
        List.getElem?_cons_succ]
      congr 2
      omega

/-- At this point of a run, in the block `id` of an element, an attribute is declared without a
value, and the statements after it supply one, up to `last`. Comments may stand among them. -/
structure Moment.Supplies (m : Moment) (id : NodeId) (tag : Text) (classes : Option Text)
    (name : Text) (opening : Statement) (inner : List Statement) (last : Statement) : Prop where
  closed : m.builder.openAttribute = none
  block : m.builder.scopes.head? = some id
  element : (m.builder.doc.get? id).map Node.kind = some (.element tag classes)
  rest : opening :: (inner ++ [last]) <+: m.rest
  declares : ∃ isEvent, (Scope.element tag).classify opening.text = .attribute name [] isEvent
  keepsOpen : ∀ s ∈ inner, Builder.keepsOpen s = true
  not_comment : last.isComment = false
  not_closes : last.closes = false
  ends : Builder.endsValue last = true

/-- The pieces of the value: the statements but for the comments. -/
def Statement.pieces (inner : List Statement) (last : Statement) : List Statement :=
  (inner ++ [last]).filter fun s ↦ !s.isComment

open Statement

namespace Moment.Supplies

variable {settings : Settings} {base : Path} {source : Text} {m : Moment} {id : NodeId} {tag : Text}
  {classes : Option Text} {name : Text} {opening last : Statement} {inner : List Statement}
  (h : m.Supplies id tag classes name opening inner last)
include h

theorem scope_eq : m.builder.scope = .element tag := by
  obtain ⟨outer, hscopes⟩ := List.head?_eq_some_iff.mp h.block
  rw [Builder.scope, hscopes]
  simp only [h.element]

/-- The run takes in the declaration and then the pieces, each as a node of the block. -/
theorem runs (hm : m.Sound settings) :
    ∃ m', Runs settings m m' ∧ m'.builder.doc = (pieces inner last).foldl
      (fun doc s ↦ doc.graft (some id) s (Builder.pieceKind name s) false m.ctx.isExpanding)
      (m.builder.doc.graft (some id) opening (.attribute name [] (Vocabulary.isEvent name) true)
        false m.ctx.isExpanding) := by
  obtain ⟨b, ctx, rest, callers, log⟩ := m
  obtain ⟨more, hmore⟩ := h.rest
  have hscope := h.scope_eq
  obtain ⟨hopen, hblock, -, -, ⟨isEvent, hclass⟩, hinner, hcomment, hcloses, hends⟩ := h
  dsimp only at hmore hscope hopen hblock ⊢
  rw [← hscope] at hclass
  rw [List.cons_append, List.append_assoc] at hmore
  subst hmore
  have hs := hm.rest_shaped opening List.mem_cons_self
  obtain ⟨name', blanks, value, htext, -⟩ :=
    Classification.attribute?_eq_some (Scope.classify_eq_attribute hclass).2
  have hopened : Builder.opened? (b.scope.classify opening.text).toKind.awaitValue opening =
      some ⟨name, opening.line, opening.text⟩ := by
    rw [hclass]
    rfl
  have hstep : b.step settings ctx opening = .ok (.next (b.plain opening ctx.isExpanding)) := by
    refine Builder.step_plain hopen (c := '-') (by simp [htext]) (by decide) (by decide) ?_
    intro hclose
    have hbrace : opening.text = ['}'] := by simpa [Statement.closes] using hclose
    rw [hbrace] at htext
    cases htext
  rw [Builder.plain_of_opened hs hopened] at hstep
  obtain ⟨log', hruns⟩ := (hm.moves (.next hstep)).runs_collect rfl hinner
  have hsound := (hm.moves (.next hstep)).runs hruns
  have hlast := Builder.step_piece settings ctx hsound.builder_sound.attentive rfl hcomment hcloses
  refine ⟨_, (hruns.head (.next hstep)).tail (.next hlast), ?_⟩
  rw [← Builder.collect_append]
  simp [Builder.collect, pieces, hblock]

/-- The nodes of the declaration and of the pieces in the document. -/
theorem core_eq (hm : Reachable settings base source m) {doc : Document}
    (hdoc : Document.parse settings base source = .ok doc) :
    (doc.get? m.builder.doc.size).map Node.core =
        some (opening.text, .attribute name [] (Vocabulary.isEvent name) true, some id, false) ∧
      ∀ i < (pieces inner last).length,
        (doc.get? (m.builder.doc.size + 1 + i)).map Node.core =
          ((pieces inner last)[i]?).map fun s ↦
            (s.text, Builder.pieceKind name s, some id, false) := by
  obtain ⟨m', hruns, hdoc'⟩ := h.runs hm.sound
  have hid : ∀ p, some id = some p → p < m.builder.doc.size := by
    rintro p ⟨⟩
    exact hm.sound.builder_sound.head?_lt id h.block
  have hid' : ∀ p, some id = some p → p < (m.builder.doc.graft (some id) opening
      (.attribute name [] (Vocabulary.isEvent name) true) false m.ctx.isExpanding).size := by
    intro p hp
    rw [Document.size_graft]
    exact Nat.lt_succ_of_lt (hid p hp)
  have hcore := Document.core_foldl_graft (Builder.pieceKind name) m.ctx.isExpanding
    (pieces inner last) hid'
  rw [← hdoc'] at hcore
  simp only [Document.size_graft] at hcore
  have hlt : ∀ {j}, ((m'.builder.doc.get? j).map Node.core).isSome = true →
      (doc.get? j).map Node.core = (m'.builder.doc.get? j).map Node.core := by
    intro j hj
    obtain ⟨n, hn⟩ := Option.isSome_iff_exists.mp (by simpa using hj)
    exact (hm.runs hruns).core_of_parse hdoc (Document.lt_size_of_get? hn)
  constructor
  · have hopening := hcore m.builder.doc.size
    rw [if_pos (Nat.lt_succ_self _), Document.map_get?_graft m.builder.doc opening _ false
      m.ctx.isExpanding Node.core_adopt hid, if_pos rfl] at hopening
    rw [hlt (by rw [hopening]; rfl), hopening]
    rfl
  · intro i hi
    have hpiece := hcore (m.builder.doc.size + 1 + i)
    rw [if_neg (by omega), Nat.add_sub_cancel_left] at hpiece
    rw [hlt (by rw [hpiece, List.getElem?_eq_getElem hi]; rfl), hpiece]

end Moment.Supplies

/-! ## The attributes of that name -/

/-- The node declares this attribute. -/
def Node.declares (name : Text) (n : Node) : Bool :=
  match n.kind with
  | .attribute other .. => other = name
  | _ => false

/-- The attributes of a block that have this name. -/
def Document.namesakes (doc : Document) (id : NodeId) (name : Text) : List NodeId :=
  (doc.listed id true).filter (doc.has (Node.declares name))

/-- In the block `id` of the document, nothing has this name but the declaration that stands next
and the pieces of its value. -/
def Moment.DeclaresAlone (m : Moment) (doc : Document) (id : NodeId) (name : Text)
    (inner : List Statement) (last : Statement) : Prop :=
  ∀ j ∈ doc.namesakes id name, m.builder.doc.size ≤ j ∧
    j ≤ m.builder.doc.size + (pieces inner last).length

theorem Document.mem_namesakes_of_core {doc : Document} {id j : NodeId} {raw name value : Text}
    {isEvent multilineOpen suppressed : Bool}
    (h : (doc.get? j).map Node.core =
      some (raw, .attribute name value isEvent multilineOpen, some id, suppressed)) :
    j ∈ doc.namesakes id name := by
  obtain ⟨n, hn, -, hkind, hparent, -⟩ := exists_of_core h
  simp [namesakes, listed, has, hn, hkind, hparent, parent?, Node.isAttribute, Node.declares,
    lt_size_of_get? hn]

namespace Moment.Supplies

variable {settings : Settings} {base : Path} {source : Text} {m : Moment} {id : NodeId} {tag : Text}
  {classes : Option Text} {name : Text} {opening last : Statement} {inner : List Statement}
  (h : m.Supplies id tag classes name opening inner last)
include h

theorem namesakes_eq (hm : Reachable settings base source m) {doc : Document}
    (hdoc : Document.parse settings base source = .ok doc)
    (halone : m.DeclaresAlone doc id name inner last) :
    doc.namesakes id name =
      List.range' m.builder.doc.size ((pieces inner last).length + 1) := by
  obtain ⟨hopening, hpieces⟩ := h.core_eq hm hdoc
  have hsorted : (doc.namesakes id name).Pairwise (· < ·) :=
    (List.pairwise_lt_range.filter _).filter _
  refine hsorted.eq_of_mem_iff List.pairwise_lt_range' fun j ↦ ?_
  rw [List.mem_range'_1]
  constructor
  · intro hj
    exact ⟨(halone j hj).1, Nat.lt_succ_of_le (halone j hj).2⟩
  · rintro ⟨hle, hlt⟩
    rcases Nat.eq_or_lt_of_le hle with rfl | hgt
    · exact Document.mem_namesakes_of_core hopening
    · obtain ⟨i, rfl⟩ := Nat.exists_eq_add_of_lt hgt
      have hi : i < (pieces inner last).length := by omega
      have hpiece := hpieces i hi
      rw [List.getElem?_eq_getElem hi, Option.map_some] at hpiece
      rw [Nat.add_right_comm]
      exact Document.mem_namesakes_of_core hpiece

end Moment.Supplies

namespace Markup

/-- The declarations of a name are those of the attributes of that name, after the class names. -/
theorem declarationsOf_declared {doc : Document} (hlinked : doc.Linked) {id : NodeId} {n : Node}
    (hn : doc.get? id = some n) (r : Resolver) (classes : Option Text) (name : Text) :
    declarationsOf name (declared r classes (n.attrs.filterMap doc.get?)) =
      declarationsOf name (declared r classes []) ++
        (doc.namesakes id name).filterMap fun j ↦ (doc.get? j).bind (Attribute.ofNode? r) := by
  have hown : ∀ j, (if doc.has (Node.declares name) j = true then
      (doc.get? j).bind (Attribute.ofNode? r) else none) =
        ((doc.get? j).bind (Attribute.ofNode? r)).filter fun a ↦ a.name = name := by
    intro j
    cases hj : doc.get? j with
    | none => simp
    | some m =>
      rw [Document.has_of_get? hj, Option.bind_some]
      unfold Node.declares Attribute.ofNode?
      rcases m.kind with _ | ⟨other, value, isEvent, multilineOpen⟩ | _ | _
      · rfl
      · dsimp only
        generalize (multilineOpen || m.suppressed) = hidden
        cases hidden <;> by_cases hname : other = name <;> simp [hname, Option.filter]
      · rfl
      · rfl
  rw [hlinked.attrs_eq hn, declared, declared, List.filterMap_nil, List.append_nil, declarationsOf,
    declarationsOf, List.filter_append, List.filterMap_filterMap, List.filter_filterMap,
    Document.namesakes, List.filterMap_filter]
  simp only [hown]

theorem declarationsOf_classes {classes : Option Text} {name : Text}
    (h : name = "class".toList → classes = none) (r : Resolver) :
    declarationsOf name (declared r classes []) = [] := by
  cases classes with
  | none => rfl
  | some names =>
    have hne : "class".toList ≠ name := by
      rintro rfl
      cases h rfl
    simpa [declarationsOf, declared] using hne

theorem ofNode?_of_core (r : Resolver) {doc : Document} {j : NodeId} {raw name value : Text}
    {parent : Option NodeId} {isEvent multilineOpen : Bool}
    (h : (doc.get? j).map Node.core =
      some (raw, .attribute name value isEvent multilineOpen, parent, false)) :
    (doc.get? j).bind (Attribute.ofNode? r) =
      if multilineOpen then none else some ⟨name, r.apply value, isEvent⟩ := by
  obtain ⟨n, hn, -, hkind, -, hshown⟩ := Document.exists_of_core h
  simp [hn, Attribute.ofNode?, hkind, hshown]

theorem filter_attributes (r : Resolver) (classes : Option Text) (nodes : List Node) {name : Text}
    (h : declarationsOf name (declared r classes nodes) ≠ []) :
    (attributes r classes nodes).filter (fun attr ↦ attr.1 = name) =
      [(name, settled (declarationsOf name (declared r classes nodes)))] := by
  obtain ⟨a, ha⟩ := List.exists_mem_of_ne_nil _ h
  obtain ⟨hmem, hname⟩ := List.mem_filter.mp ha
  have hname : a.name = name := by simpa using hname
  have hin : name ∈ ((declared r classes nodes).map Attribute.name).eraseDups :=
    List.mem_eraseDups.mpr (List.mem_map.mpr ⟨a, hmem, hname⟩)
  have hone : (((declared r classes nodes).map Attribute.name).eraseDups.filter
      fun other ↦ other = name) = [name] := by
    rw [List.filter_eq, List.count_eq_one_of_mem (nodup_eraseDups _) hin, List.replicate_one]
  rw [attributes_eq, List.filter_map]
  exact congrArg (List.map _) hone

end Markup

/-- Only generic nodes are suppressed, those that declare a variable. -/
theorem Document.core_suppressDeclarations {doc : Document} {j : NodeId} {raw : Text}
    {kind : NodeKind} {parent : Option NodeId} {suppressed : Bool}
    (h : (doc.get? j).map Node.core = some (raw, kind, parent, suppressed))
    (hraw : kind = .generic → declaration? raw = none) :
    (doc.suppressDeclarations.get? j).map Node.core = some (raw, kind, parent, suppressed) := by
  obtain ⟨n, hn, rfl, rfl, rfl, rfl⟩ := exists_of_core h
  have hdeclares : n.declaration? = none := by
    unfold Node.declaration?
    split
    · next hkind => exact hraw hkind
    · rfl
  rw [get?_suppressDeclarations, hn, Option.map_some, hdeclares]
  rfl

theorem Document.namesakes_suppressDeclarations (doc : Document) (id : NodeId) (name : Text) :
    doc.suppressDeclarations.namesakes id name = doc.namesakes id name := by
  have hdeclares :
      doc.suppressDeclarations.has (Node.declares name) = doc.has (Node.declares name) :=
    funext fun j ↦ has_suppressDeclarations (fun _ ↦ rfl) doc j
  rw [namesakes, namesakes, listed_suppressDeclarations, hdeclares]

section Value

variable {settings : Settings} {base : Path} {source : Text} {m : Moment} {id : NodeId} {tag : Text}
  {classes : Option Text} {name : Text} {opening last : Statement} {inner : List Statement}
  (h : m.Supplies id tag classes name opening inner last)
include h

theorem Moment.Supplies.exists_element (hm : Reachable settings base source m) {doc : Document}
    (hdoc : Document.parse settings base source = .ok doc) :
    ∃ n, doc.suppressDeclarations.get? id = some n ∧ n.kind = .element tag classes ∧
      n.isBlockOpen = true := by
  have hb := hm.sound.builder_sound
  have hid : id ∈ m.builder.scopes := List.mem_of_head? h.block
  obtain ⟨n₀, hn₀, hkind₀⟩ := Option.map_eq_some_iff.mp h.element
  have hcore : (doc.get? id).map Node.core = some n₀.core := by
    rw [hm.core_of_parse hdoc (hb.scopes_lt id hid), hn₀, Option.map_some]
  obtain ⟨n, hn, hraw, hkind, -, -⟩ := Document.exists_of_core
    (Document.core_suppressDeclarations hcore (by rw [hkind₀]; simp))
  refine ⟨n, hn, hkind.trans hkind₀, ?_⟩
  have hopens := hb.scope_opens id hid
  rw [Document.has_of_get? hn₀] at hopens
  rw [Node.isBlockOpen, hraw]
  exact hopens

theorem Moment.Supplies.pieces_eq :
    pieces inner last = (inner.filter fun s ↦ !s.isComment) ++ [last] := by
  simp [pieces, h.not_comment]

theorem Moment.Supplies.declarationsOf_eq (hm : Reachable settings base source m) {doc : Document}
    (hdoc : Document.parse settings base source = .ok doc)
    (halone : m.DeclaresAlone doc id name inner last)
    (hclass : name = "class".toList → classes = none) (r : Resolver) {n : Node}
    (hn : doc.suppressDeclarations.get? id = some n) :
    Markup.declarationsOf name
        (Markup.declared r classes (n.attrs.filterMap doc.suppressDeclarations.get?)) =
      (pieces inner last).map fun s ↦
        ⟨name, r.apply (Builder.pieceValue s), Vocabulary.isEvent name⟩ := by
  obtain ⟨hopening, hpieces⟩ := h.core_eq hm hdoc
  have hlinked := (Document.orderly_of_parse hdoc).linked
  have hfirst := Markup.ofNode?_of_core r
    (Document.core_suppressDeclarations hopening (by simp))
  have hpiece : ∀ i ∈ List.range (pieces inner last).length,
      (doc.suppressDeclarations.get? (m.builder.doc.size + 1 + i)).bind
          (Markup.Attribute.ofNode? r) =
        ((pieces inner last)[i]?).map fun s ↦
          ⟨name, r.apply (Builder.pieceValue s), Vocabulary.isEvent name⟩ := by
    intro i hi
    have hi := List.mem_range.mp hi
    have hcore := hpieces i hi
    rw [List.getElem?_eq_getElem hi, Option.map_some] at hcore ⊢
    rw [Markup.ofNode?_of_core r (Document.core_suppressDeclarations hcore (by simp))]
    rfl
  rw [Markup.declarationsOf_declared hlinked hn, Markup.declarationsOf_classes hclass,
    List.nil_append, Document.namesakes_suppressDeclarations, h.namesakes_eq hm hdoc halone,
    List.range'_succ, List.filterMap_cons, hfirst, List.range'_eq_map_range, List.filterMap_map]
  have hall := filterMap_range'_getElem? (pieces inner last) 0 (pieces inner last).length
    (Nat.zero_add _).le
  rw [← List.range_eq_range', List.drop_zero, List.take_length] at hall
  calc _ = (List.range (pieces inner last).length).filterMap fun i ↦ ((pieces inner last)[i]?).map
        fun s ↦ ⟨name, r.apply (Builder.pieceValue s), Vocabulary.isEvent name⟩ :=
        List.filterMap_congr hpiece
    _ = _ := by rw [← List.map_filterMap, hall]

theorem Moment.Supplies.filter_attributes (hm : Reachable settings base source m) {doc : Document}
    (hdoc : Document.parse settings base source = .ok doc)
    (halone : m.DeclaresAlone doc id name inner last)
    (hclass : name = "class".toList → classes = none) (r : Resolver) {n : Node}
    (hn : doc.suppressDeclarations.get? id = some n) :
    (Markup.attributes r classes (n.attrs.filterMap doc.suppressDeclarations.get?)).filter
        (fun attr ↦ attr.1 = name) =
      [(name, if Vocabulary.isEvent name then
          Markup.spaceJoin ((pieces inner last).map fun s ↦ r.apply (Builder.pieceValue s))
        else r.apply (Builder.pieceValue last))] := by
  have hown := h.declarationsOf_eq hm hdoc halone hclass r hn
  rw [Markup.filter_attributes r classes _ (by rw [hown, h.pieces_eq]; simp), hown]
  cases hevent : Vocabulary.isEvent name with
  | true =>
    rw [Markup.settled_of_event (by simp), if_pos rfl, List.map_map]
    rfl
  | false =>
    rw [h.pieces_eq, List.map_append, List.map_singleton,
      Markup.settled_append_of_not_event _ (by rfl), if_neg Bool.false_ne_true]

end Value

/-! ## The lines of a node -/

namespace Markup

/-- Neither the node nor a block around it is suppressed or an attribute. -/
def IsShown (doc : Document) (j : NodeId) : Prop :=
  ∀ i, doc.Within i j → doc.has (fun n ↦ n.suppressed || n.isAttribute) i = false

theorem IsShown.node {doc : Document} {j : NodeId} {n : Node} (h : IsShown doc j)
    (hn : doc.get? j = some n) : (n.suppressed || n.isAttribute) = false := by
  rw [← h j (Or.inl rfl), Document.has_of_get? hn]

theorem IsShown.parent {doc : Document} {j p : NodeId} (h : IsShown doc j)
    (hp : doc.parent? j = some p) : IsShown doc p := by
  rintro i (rfl | hi)
  · exact h i (Or.inr (.of_parent hp))
  · exact h i (Or.inr (hi.tail hp))

theorem mem_linesOfAll {r : Resolver} {depth : Nat} {ts : List Tree} {t : Tree} (ht : t ∈ ts)
    {line : Text} (hline : line ∈ linesOf r depth t) : line ∈ linesOfAll r depth ts := by
  induction ts with
  | nil => cases ht
  | cons u ts ih =>
    rw [linesOfAll, List.mem_append]
    rcases List.mem_cons.mp ht with rfl | ht
    · exact Or.inl hline
    · exact Or.inr (ih ht)

/-- The lines of a block that is not left out contain those of its children. -/
theorem mem_linesOf_of_child (r : Resolver) (depth : Nat) {n : Node} (attrs : List Node)
    {children : List Tree} (hshown : (n.suppressed || n.isAttribute) = false)
    (hopen : n.isBlockOpen = true) (hclose : n.isBlockClose = false) {line : Text}
    (hline : line ∈ linesOfAll r (depth + 1) children) :
    line ∈ linesOf r depth (.mk n attrs children) := by
  rw [Bool.or_eq_false_iff] at hshown
  cases part n with
  | hidden hhidden => rcases hhidden with h | h <;> simp [h] at hshown
  | element tag classes _ hkind =>
    rw [linesOf_block r depth attrs children hshown.1 hkind hopen, List.mem_cons, List.mem_append]
    exact Or.inr (Or.inl hline)
  | statement _ hkind =>
    rw [linesOf_statement r depth attrs children hkind hshown.1 hclose, List.mem_append]
    exact Or.inr hline

section Orderly

variable {doc : Document} (h : doc.Orderly) (r : Resolver)
include h

theorem render_of_orderly : render r doc = .ok (joinLines (linesOfAll r 0 doc.forest)) := by
  apply render_eq_of_closed r h.renderable.forest
  intro t ht
  obtain ⟨i, -, htree⟩ := List.mem_filterMap.mp ht
  exact Document.everywhere_treeWithin
    (fun j n hn ↦ Node.leavesOpen_of_isTrimmed (h.trimmed j n hn)) htree

/-- A node with children opens a block and is no closing brace. -/
theorem block_of_child {p j : NodeId} {n : Node} (hn : doc.get? p = some n) (hj : j ∈ n.children) :
    n.isBlockOpen = true ∧ n.isBlockClose = false := by
  have hopen := (h.renderable.block hn (List.ne_nil_of_mem hj)).1
  rw [Node.leavesOpen_of_isTrimmed (h.trimmed p n hn)] at hopen
  refine ⟨hopen, ?_⟩
  by_contra hclose
  rw [Node.isBlockOpen,
    Node.raw_of_isBlockClose (h.trimmed p n hn) (Bool.of_not_eq_false hclose)] at hopen
  exact absurd hopen (by decide)

/-- What is rendered of a node that is shown, at its depth, is rendered of the document. -/
theorem exists_linesOf {j : NodeId} {n : Node} (hn : doc.get? j = some n) (hj : IsShown doc j) :
    ∃ bound, doc.size ≤ j + (bound + 1) ∧ ∀ line ∈ linesOf r (doc.depth j)
      (.mk n (n.attrs.filterMap doc.get?) (n.children.filterMap (doc.treeWithin bound))),
        line ∈ linesOfAll r 0 doc.forest := by
  -- Up the parents. Each step down takes one of the bound, which still reaches the last node.
  induction j using Nat.strong_induction_on generalizing n with
  | _ j ih =>
    cases hp : doc.parent? j with
    | none =>
      obtain ⟨bound, hbound, htree⟩ := Document.exists_treeWithin hn (Nat.le_add_left doc.size j)
      refine ⟨bound, hbound ▸ Nat.le_add_left doc.size j, fun line hline ↦ ?_⟩
      rw [Document.depth_of_root hp] at hline
      have hroot := h.linked.mem_roots.mpr ⟨Document.lt_size_of_get? hn, hp⟩
      exact mem_linesOfAll (List.mem_filterMap.mpr ⟨j, hroot, htree⟩) hline
    | some p =>
      have hlt := h.linked.parent_lt hp
      obtain ⟨parent, hparent⟩ := Document.exists_get? (hlt.trans (Document.lt_size_of_get? hn))
      have hshown := hj.parent hp
      obtain ⟨bound, hbound, hlines⟩ := ih p hlt hparent hshown
      have hchild : j ∈ parent.children := by
        rw [h.linked.mem_children hparent, Document.has_of_get? hn]
        exact ⟨hp, (Bool.or_eq_false_iff.mp (hj.node hn)).2⟩
      obtain ⟨bound, rfl, htree⟩ :=
        Document.exists_treeWithin hn (Document.le_add_of_lt hlt hbound)
      refine ⟨bound, Document.le_add_of_lt hlt hbound, fun line hline ↦ hlines line ?_⟩
      rw [h.linked.coherent.depth_of_parent hp] at hline
      obtain ⟨hopen, hclose⟩ := block_of_child h hparent hchild
      exact mem_linesOf_of_child r _ _ (hshown.node hparent) hopen hclose
        (mem_linesOfAll (List.mem_filterMap.mpr ⟨j, hchild, htree⟩) hline)

end Orderly

/-- The value of a name that is declared once, over several statements: an event handler gets all
pieces, anything else only the last one. -/
theorem attribute_of_pieces {settings : Settings} {base : Path} {source : Text} {m : Moment}
    (hm : Reachable settings base source m) {id : NodeId} {tag : Text} {classes : Option Text}
    {name : Text} {opening last : Statement} {inner : List Statement}
    (h : m.Supplies id tag classes name opening inner last) {doc : Document}
    (hdoc : Document.parse settings base source = .ok doc)
    (halone : m.DeclaresAlone doc id name inner last)
    (hclass : name = "class".toList → classes = none) (r : Resolver) :
    ∃ n, doc.suppressDeclarations.get? id = some n ∧
      (attributes r classes (n.attrs.filterMap doc.suppressDeclarations.get?)).filter
          (fun attr ↦ attr.1 = name) =
        [(name, if Vocabulary.isEvent name then
            spaceJoin ((pieces inner last).map fun s ↦ r.apply (Builder.pieceValue s))
          else r.apply (Builder.pieceValue last))] ∧
      (IsShown doc.suppressDeclarations id → ∃ lines,
        render r doc.suppressDeclarations = .ok (joinLines lines) ∧
          indent (doc.suppressDeclarations.depth id) (openTag tag (attributes r classes
            (n.attrs.filterMap doc.suppressDeclarations.get?))) ∈ lines) := by
  obtain ⟨n, hn, hkind, hopen⟩ := h.exists_element hm hdoc
  have horderly := Document.orderly_of_parse hdoc
  refine ⟨n, hn, h.filter_attributes hm hdoc halone hclass r hn, fun hshown ↦ ?_⟩
  obtain ⟨bound, -, hlines⟩ := exists_linesOf horderly r hn hshown
  refine ⟨_, render_of_orderly horderly r, hlines _ ?_⟩
  rw [linesOf_block r _ _ _ (Bool.or_eq_false_iff.mp (hshown.node hn)).1 hkind hopen]
  exact List.mem_cons_self

/-- A title in two pieces, and nothing else of that name. -/
theorem exists_supplies_title :
    ∃ m doc, Reachable ⟨fun _ ↦ .error "", 0⟩ ⟨[]⟩
        "div \x7b\n--title:\n\"a\"\n\"b\";\n\x7d".toList m ∧
      m.Supplies 0 "div".toList none "title".toList ⟨"--title:".toList, 2⟩ [⟨"\"a\"".toList, 3⟩]
        ⟨"\"b\";".toList, 4⟩ ∧
      Document.parse ⟨fun _ ↦ .error "", 0⟩ ⟨[]⟩
        "div \x7b\n--title:\n\"a\"\n\"b\";\n\x7d".toList = .ok doc ∧
      m.DeclaresAlone doc 0 "title".toList [⟨"\"a\"".toList, 3⟩] ⟨"\"b\";".toList, 4⟩ ∧
      IsShown doc.suppressDeclarations 0 := by
  have hscan : Statement.scan "div \x7b\n--title:\n\"a\"\n\"b\";\n\x7d".toList =
      .ok [⟨"div \x7b".toList, 1⟩, ⟨"--title:".toList, 2⟩, ⟨"\"a\"".toList, 3⟩,
        ⟨"\"b\";".toList, 4⟩, ⟨"\x7d".toList, 5⟩] := by
    cbv
  refine ⟨_, ?_, ⟨_, hscan, .head (.next rfl) .refl⟩, ?_, ?_, ?_, ?_⟩
  rotate_left
  · exact ⟨rfl, rfl, rfl, ⟨_, rfl⟩, ⟨_, rfl⟩, by decide, rfl, rfl, rfl⟩
  · rw [Document.parse, hscan]
    simp only [Document.ofStatements]
    rw [Builder.feed_next rfl, Builder.feed_next rfl, Builder.feed_next rfl,
      Builder.feed_next rfl, Builder.feed_next rfl, Builder.feed_nil]
    rfl
  · unfold Moment.DeclaresAlone
    decide +kernel
  · rintro i (rfl | hi)
    · decide +kernel
    · exact absurd hi (Document.not_below_of_root (by decide +kernel))

theorem value_of_title :
    (if Vocabulary.isEvent "title".toList then
        spaceJoin ((pieces [⟨"\"a\"".toList, 3⟩] ⟨"\"b\";".toList, 4⟩).map fun s ↦
          ({} : Resolver).apply (Builder.pieceValue s))
      else ({} : Resolver).apply (Builder.pieceValue ⟨"\"b\";".toList, 4⟩)) = "b".toList := by
  decide +kernel

theorem attribute_of_pieces_title :
    ∃ doc n, Document.parse ⟨fun _ ↦ .error "", 0⟩ ⟨[]⟩
        "div \x7b\n--title:\n\"a\"\n\"b\";\n\x7d".toList = .ok doc ∧
      doc.suppressDeclarations.get? 0 = some n ∧
      (attributes {} none (n.attrs.filterMap doc.suppressDeclarations.get?)).filter
        (fun attr ↦ attr.1 = "title".toList) = [("title".toList, "b".toList)] ∧
      ∃ lines, render {} doc.suppressDeclarations = .ok (joinLines lines) ∧
        indent (doc.suppressDeclarations.depth 0) (openTag "div".toList (attributes {} none
          (n.attrs.filterMap doc.suppressDeclarations.get?))) ∈ lines := by
  obtain ⟨m, doc, hm, h, hdoc, halone, hshown⟩ := exists_supplies_title
  obtain ⟨n, hn, hattrs, hlines⟩ := attribute_of_pieces hm h hdoc halone (by decide) {}
  rw [value_of_title] at hattrs
  exact ⟨doc, n, hdoc, hn, hattrs, hlines hshown⟩

/-- Not every attribute gets all pieces of its value. -/
theorem not_forall_pieces_joined :
    ¬∀ (settings : Settings) (base : Path) (source : Text) (m : Moment) (id : NodeId)
      (tag : Text) (classes : Option Text) (name : Text) (opening last : Statement)
      (inner : List Statement) (doc : Document) (r : Resolver) (n : Node),
      Reachable settings base source m → m.Supplies id tag classes name opening inner last →
      Document.parse settings base source = .ok doc →
      m.DeclaresAlone doc id name inner last →
      (name = "class".toList → classes = none) →
      (∀ s ∈ pieces inner last, Builder.pieceValue s ≠ []) →
      doc.suppressDeclarations.get? id = some n →
      (attributes r classes (n.attrs.filterMap doc.suppressDeclarations.get?)).filter
          (fun attr ↦ attr.1 = name) =
        [(name, [' '].intercalate
          ((pieces inner last).map fun s ↦ r.apply (Builder.pieceValue s)))] := by
  intro hall
  obtain ⟨m, doc, hm, h, hdoc, halone, -⟩ := exists_supplies_title
  obtain ⟨n, hn, -⟩ := h.exists_element hm hdoc
  have hjoined := hall _ _ _ m 0 _ none _ _ _ _ doc {} n hm h hdoc halone (by decide)
    (by decide +kernel) hn
  rw [h.filter_attributes hm hdoc halone (by decide) {} hn, value_of_title] at hjoined
  revert hjoined
  decide +kernel

end Markup

end StyledMarkup
