import StyledMarkup.Proofs.Builder.Attribute
import StyledMarkup.Proofs.Rendering

/-!
# The attributes of a tag

The attributes of an element are folded from its class names and its attribute nodes in one pass,
which inserts, overwrites and appends. The result has a closed form. Each name that is declared
stands once, in the order of the first declarations. Its value is that of the last declaration, and
for event handlers what all declarations say, one after the other.
-/

namespace StyledMarkup

namespace Markup

/-! ## Declarations -/

/-- One declaration of an attribute, with its resolved value. -/
structure Attribute where
  name : Text
  value : Text
  isEvent : Bool
  deriving DecidableEq, Repr

/-- What a node declares. A suppressed node declares nothing, and neither does the opening of a
value that stands in later statements. -/
def Attribute.ofNode? (r : Resolver) (n : Node) : Option Attribute :=
  match n.kind with
  | .attribute name value isEvent multilineOpen =>
    if multilineOpen || n.suppressed then none else some ⟨name, r.apply value, isEvent⟩
  | _ => none

/-- All declarations of an element in order, its class names first. -/
def declared (r : Resolver) (classes : Option Text) (nodes : List Node) : List Attribute :=
  (classes.toList.map fun names ↦ ⟨"class".toList, r.apply names, false⟩) ++
    nodes.filterMap (Attribute.ofNode? r)

/-- The attributes after one more declaration. -/
def Attribute.set (attrs : List (Text × Text)) (a : Attribute) : List (Text × Text) :=
  setAttribute a.name a.value a.isEvent attrs

theorem declare_eq (r : Resolver) (attrs : List (Text × Text)) (n : Node) :
    declare r attrs n =
      match Attribute.ofNode? r n with
      | some a => Attribute.set attrs a
      | none => attrs := by
  unfold declare Attribute.ofNode?
  rcases n.kind with _ | ⟨name, value, isEvent, multilineOpen⟩ | _ | _
  · rfl
  · dsimp only
    split <;> rfl
  · rfl
  · rfl

theorem attributes_eq_foldl (r : Resolver) (classes : Option Text) (nodes : List Node) :
    attributes r classes nodes = (declared r classes nodes).foldl Attribute.set [] := by
  have hclasses : (classes.toList.map fun names ↦ ("class".toList, r.apply names)) =
      (classes.toList.map fun names ↦ ⟨"class".toList, r.apply names, false⟩).foldl
        Attribute.set [] := by
    cases classes <;> rfl
  rw [attributes, declared, List.foldl_append, ← hclasses, List.foldl_filterMap]
  congr 1
  funext attrs n
  rw [declare_eq]
  cases Attribute.ofNode? r n <;> rfl

/-! ## Values -/

/-- The texts with single spaces between them, without the empty ones at the start. -/
def spaceJoin (values : List Text) : Text :=
  [' '].intercalate (values.dropWhile List.isEmpty)

theorem spaceJoin_singleton (value : Text) : spaceJoin [value] = value := by
  cases value <;> simp [spaceJoin]

theorem intercalate_append_singleton (first : Text) (rest : List Text) (last : Text) :
    [' '].intercalate (first :: rest ++ [last]) =
      [' '].intercalate (first :: rest) ++ ' ' :: last := by
  induction rest generalizing first with
  | nil => simp [List.intercalate_cons_cons]
  | cons next rest ih =>
    rw [List.cons_append, List.cons_append, List.intercalate_cons_cons, ← List.cons_append, ih,
      List.intercalate_cons_cons, List.append_assoc (first ++ [' '])]

/-- A further text is added after a space, unless everything before it is empty. -/
theorem spaceJoin_append_singleton (values : List Text) (value : Text) :
    spaceJoin (values ++ [value]) =
      if (spaceJoin values).isEmpty then value else spaceJoin values ++ ' ' :: value := by
  unfold spaceJoin
  rw [List.dropWhile_append]
  cases hrest : values.dropWhile List.isEmpty with
  | nil => exact spaceJoin_singleton value
  | cons first rest =>
    have hfirst : first ≠ [] := by
      have hhead := List.head?_dropWhile_not List.isEmpty values
      rw [hrest] at hhead
      simpa using hhead
    have hjoin : ([' '].intercalate (first :: rest)).isEmpty = false := by
      cases rest <;> simp [List.intercalate_cons_cons, hfirst]
    rw [List.isEmpty_cons, if_neg Bool.false_ne_true, hjoin, if_neg Bool.false_ne_true]
    exact intercalate_append_singleton first rest value

/-- The declarations that count: an event handler counts along with what counted before it,
anything else replaces that. -/
def counting (own : List Attribute) : List Attribute :=
  own.foldl (fun kept a ↦ if a.isEvent then kept ++ [a] else [a]) []

theorem counting_append_singleton (own : List Attribute) (a : Attribute) :
    counting (own ++ [a]) = if a.isEvent then counting own ++ [a] else [a] := by
  simp [counting]

theorem counting_of_event {own : List Attribute} (h : ∀ a ∈ own, a.isEvent = true) :
    counting own = own := by
  induction own using List.reverseRecOn with
  | nil => rfl
  | append_singleton own a ih =>
    rw [List.forall_mem_append] at h
    rw [counting_append_singleton, if_pos (h.2 a List.mem_cons_self), ih h.1]

/-- The value that the declarations of one name come to. -/
def settled (own : List Attribute) : Text :=
  spaceJoin ((counting own).map Attribute.value)

theorem settled_append_singleton (own : List Attribute) (a : Attribute) :
    settled (own ++ [a]) =
      if a.isEvent && !(settled own).isEmpty then settled own ++ ' ' :: a.value else a.value := by
  rw [settled, counting_append_singleton]
  cases a.isEvent with
  | false => exact spaceJoin_singleton a.value
  | true =>
    rw [if_pos rfl, List.map_append, List.map_singleton, spaceJoin_append_singleton, ← settled]
    cases (settled own).isEmpty <;> rfl

theorem settled_singleton (a : Attribute) : settled [a] = a.value := by
  have hempty : (settled []).isEmpty = true := rfl
  have hsettled := settled_append_singleton [] a
  rw [hempty, Bool.not_true, Bool.and_false] at hsettled
  exact hsettled

theorem settled_of_event {own : List Attribute} (h : ∀ a ∈ own, a.isEvent = true) :
    settled own = spaceJoin (own.map Attribute.value) := by
  rw [settled, counting_of_event h]

theorem settled_append_of_not_event (own : List Attribute) {a : Attribute}
    (h : a.isEvent = false) : settled (own ++ [a]) = a.value := by
  rw [settled_append_singleton, h]
  rfl

/-! ## The fold -/

theorem nodup_eraseDups (names : List Text) : names.eraseDups.Nodup := by
  cases names with
  | nil => exact List.nodup_nil
  | cons name rest =>
    rw [List.eraseDups_cons, List.nodup_cons, List.mem_eraseDups]
    exact ⟨by simp, nodup_eraseDups (rest.filter fun other ↦ !other == name)⟩
termination_by names.length
decreasing_by exact Nat.lt_succ_of_le (List.length_filter_le _ _)

theorem eraseDups_append_singleton (names : List Text) (name : Text) :
    (names ++ [name]).eraseDups =
      if name ∈ names then names.eraseDups else names.eraseDups ++ [name] := by
  rw [List.eraseDups_append]
  by_cases h : name ∈ names
  · simp [List.removeAll, h]
  · simp [List.removeAll, h, List.eraseDups_cons]

theorem setAttribute_of_not_mem {name : Text} {attrs : List (Text × Text)}
    (h : name ∉ attrs.map Prod.fst) (value : Text) (isEvent : Bool) :
    setAttribute name value isEvent attrs = attrs ++ [(name, value)] := by
  induction attrs with
  | nil => rfl
  | cons attr attrs ih =>
    rw [List.map_cons, List.mem_cons, not_or] at h
    rw [setAttribute, if_neg (Ne.symm h.1), ih h.2, List.cons_append]

/-- Setting an attribute that is there changes its value in place. -/
theorem setAttribute_of_mem {names : List Text} (hnodup : names.Nodup) {name : Text}
    (hname : name ∈ names) (values : Text → Text) (value : Text) (isEvent : Bool) :
    setAttribute name value isEvent (names.map fun n ↦ (n, values n)) =
      names.map fun n ↦ (n, if n = name then
        if isEvent && !(values n).isEmpty then values n ++ ' ' :: value else value
      else values n) := by
  induction names with
  | nil => cases hname
  | cons other rest ih =>
    rw [List.nodup_cons] at hnodup
    rw [List.map_cons, List.map_cons, setAttribute]
    by_cases heq : other = name
    · subst heq
      rw [if_pos rfl, if_pos rfl]
      congr 1
      apply List.map_congr_left
      intro n hn
      have hne : n ≠ other := by
        rintro rfl
        exact hnodup.1 hn
      rw [if_neg hne]
    · rw [if_neg heq, if_neg heq, ih hnodup.2 ((List.mem_cons.mp hname).resolve_left (Ne.symm heq))]

/-- The declarations of one name. -/
def declarationsOf (name : Text) (all : List Attribute) : List Attribute :=
  all.filter fun a ↦ a.name = name

theorem foldl_set_eq (all : List Attribute) :
    all.foldl Attribute.set [] =
      (all.map Attribute.name).eraseDups.map fun name ↦
        (name, settled (declarationsOf name all)) := by
  -- From the end, since one more declaration changes the value of its own name only.
  induction all using List.reverseRecOn with
  | nil => rfl
  | append_singleton all a ih =>
    have hother : ∀ name, name ≠ a.name →
        declarationsOf name (all ++ [a]) = declarationsOf name all := by
      intro name hname
      simp [declarationsOf, Ne.symm hname]
    have hown : declarationsOf a.name (all ++ [a]) = declarationsOf a.name all ++ [a] := by
      simp [declarationsOf]
    rw [List.foldl_append, List.foldl_cons, List.foldl_nil, ih, Attribute.set, List.map_append,
      List.map_singleton, eraseDups_append_singleton]
    by_cases hmem : a.name ∈ all.map Attribute.name
    · rw [if_pos hmem, setAttribute_of_mem (nodup_eraseDups _) (List.mem_eraseDups.mpr hmem)]
      apply List.map_congr_left
      intro name _
      by_cases hname : name = a.name
      · rw [hname, if_pos rfl, hown, settled_append_singleton]
      · rw [if_neg hname, hother name hname]
    · have hnone : declarationsOf a.name all = [] := by
        simpa [declarationsOf, List.filter_eq_nil_iff] using hmem
      rw [if_neg hmem, setAttribute_of_not_mem (by simpa using hmem), List.map_append,
        List.map_singleton, hown, hnone, List.nil_append, settled_singleton]
      congr 1
      apply List.map_congr_left
      intro name hname
      rw [hother name]
      rintro rfl
      exact hmem (List.mem_eraseDups.mp hname)

/-- The attributes in closed form. -/
theorem attributes_eq (r : Resolver) (classes : Option Text) (nodes : List Node) :
    attributes r classes nodes =
      ((declared r classes nodes).map Attribute.name).eraseDups.map fun name ↦
        (name, settled (declarationsOf name (declared r classes nodes))) := by
  rw [attributes_eq_foldl, foldl_set_eq]

end Markup

/-! ## Event handlers -/

/-- An attribute is marked as an event handler if its name is that of one. -/
def NodeKind.MarkedByName (kind : NodeKind) : Prop :=
  ∀ name value isEvent multilineOpen, kind = .attribute name value isEvent multilineOpen →
    isEvent = Vocabulary.isEvent name

theorem Scope.markedByName_classify (scope : Scope) (t : Text) :
    (scope.classify t).toKind.MarkedByName := by
  rintro name value isEvent multilineOpen hkind
  rcases hclass : scope.classify t with _ | ⟨name', value', isEvent'⟩ | _
  · simp [hclass, Classification.toKind] at hkind
  · rw [hclass] at hkind
    obtain ⟨rfl, rfl, rfl, -⟩ := NodeKind.attribute.inj hkind
    obtain ⟨_, _, _, -, -, -, -, hattr⟩ :=
      Classification.attribute?_eq_some (Scope.classify_eq_attribute hclass).2
    obtain ⟨rfl, -, rfl⟩ := Classification.attribute.inj hattr
    rfl
  · simp [hclass, Classification.toKind] at hkind

theorem NodeKind.MarkedByName.awaitValue {kind : NodeKind} (h : kind.MarkedByName) :
    kind.awaitValue.MarkedByName := by
  rcases kind with _ | ⟨name, value, isEvent, multilineOpen⟩ | _ | _
  · exact h
  · rintro _ _ _ _ ⟨⟩
    exact h name value isEvent multilineOpen rfl
  · exact h
  · exact h

theorem Builder.Taken.markedByName {settings : Settings} {ctx : Context} {b : Builder}
    {s : Statement} {role : Role} {r : Builder.Step} (h : Taken settings ctx b s role r)
    (hb : b.Sound) (hold : ∀ j n, b.doc.get? j = some n → n.kind.MarkedByName) :
    ∀ j n, r.builder.doc.get? j = some n → n.kind.MarkedByName := by
  have hgraft : ∀ kind suppressed, kind.MarkedByName → ∀ j n,
      (b.doc.graft b.scopes.head? s kind suppressed ctx.isExpanding).get? j = some n →
        n.kind.MarkedByName := by
    intro kind suppressed hkind
    refine Document.forall_graft b.doc s kind suppressed ctx.isExpanding ?_ hb.head?_lt hold hkind
    intro j n id asAttribute hn
    cases asAttribute <;> exact hn
  cases h with
  | comment | importFile => exact hold
  | piece a hopen hcloses =>
    rw [Step.builder, doc_continueValue]
    exact hgraft _ _ (b.scope.markedByName_classify _)
  | mixin | unknown | expand => exact hgraft _ _ (by rintro _ _ _ _ ⟨⟩)
  | plain role =>
    rw [Step.builder, doc_plain]
    exact hgraft _ _ (b.scope.markedByName_classify _).awaitValue

theorem Document.markedByName_of_parse {settings : Settings} {base : Path} {source : Text}
    {doc : Document} (h : Document.parse settings base source = .ok doc) :
    ∀ j n, doc.get? j = some n → n.kind.MarkedByName := by
  obtain ⟨m, ⟨statements, hscan, hruns⟩, -, hfinish⟩ := exists_reachable_of_parse h
  have hstart : (Moment.start base statements).Sound settings :=
    Moment.sound_start (Statement.isShaped_of_scan hscan)
  have hmarked : ∀ j n, m.builder.doc.get? j = some n → n.kind.MarkedByName := by
    clear hfinish
    induction hruns with
    | refl => simp [Moment.start, Document.get?]
    | tail hruns hmoves ih =>
      have hsound := (hstart.runs hruns).builder_sound
      cases hmoves with
      | next hstep => exact (Builder.taken_of_step hstep).markedByName hsound ih
      | nested hstep => exact (Builder.taken_of_step hstep).markedByName hsound ih
      | settle hsettle =>
        obtain ⟨rfl, -, -⟩ := Builder.settle_eq_ok hsettle
        exact ih
  obtain ⟨rfl, -⟩ := (hstart.runs hruns).builder_sound.finish_eq_ok hfinish
  exact hmarked

namespace Markup

theorem isEvent_of_parse (r : Resolver) {settings : Settings} {base : Path} {source : Text}
    {doc : Document} (h : Document.parse settings base source = .ok doc) {j : NodeId} {n : Node}
    (hn : doc.suppressDeclarations.get? j = some n) {a : Attribute}
    (ha : Attribute.ofNode? r n = some a) : a.isEvent = Vocabulary.isEvent a.name := by
  obtain ⟨m, hm, -, hkind, -⟩ := Document.exists_of_suppressDeclarations hn
  have hmarked := Document.markedByName_of_parse h j m hm
  unfold Attribute.ofNode? at ha
  split at ha
  · next name value isEvent multilineOpen hattr =>
    split at ha
    · cases ha
    · cases ha
      exact hmarked name value isEvent multilineOpen (hkind.symm.trans hattr)
  · cases ha

/-- Whatever is declared in whatever order, the attributes of a tag have distinct names, in the
order of their first declarations. A name that is no event handler has the value of its last
declaration, and an event handler has those of all its declarations with spaces between them, from
the first that is not empty. In a document that was parsed, the names decide which are event
handlers. -/
theorem attributes_of_declared (r : Resolver) (classes : Option Text) :
    (∀ nodes : List Node,
      ((attributes r classes nodes).map Prod.fst).Nodup ∧
      (attributes r classes nodes).map Prod.fst =
        ((declared r classes nodes).map Attribute.name).eraseDups ∧
      ∀ name value, (name, value) ∈ attributes r classes nodes →
        let own := declarationsOf name (declared r classes nodes)
        ((∀ a ∈ own, a.isEvent = false) → own.getLast?.map Attribute.value = some value) ∧
        ((∀ a ∈ own, a.isEvent = true) → value = spaceJoin (own.map Attribute.value))) ∧
    ∀ settings base source doc, Document.parse settings base source = .ok doc →
      ∀ j n, doc.suppressDeclarations.get? j = some n →
        ∀ a, Attribute.ofNode? r n = some a → a.isEvent = Vocabulary.isEvent a.name := by
  refine ⟨fun nodes ↦ ?_, fun _ _ _ _ hdoc j n hn a ↦ isEvent_of_parse r hdoc hn⟩
  have hnames : (attributes r classes nodes).map Prod.fst =
      ((declared r classes nodes).map Attribute.name).eraseDups := by
    rw [attributes_eq, List.map_map]
    exact List.map_id' _
  refine ⟨hnames ▸ nodup_eraseDups _, hnames, ?_⟩
  intro name value hmem own
  rw [attributes_eq, List.mem_map] at hmem
  obtain ⟨name', hname, heq⟩ := hmem
  obtain ⟨rfl, rfl⟩ := Prod.mk.inj heq
  refine ⟨fun hplain ↦ ?_, settled_of_event⟩
  rcases List.eq_nil_or_concat own with hnil | ⟨front, last, hown⟩
  · obtain ⟨a, ha, haname⟩ := List.mem_map.mp (List.mem_eraseDups.mp hname)
    have hmem : a ∈ own := List.mem_filter.mpr ⟨ha, by simpa using haname⟩
    rw [hnil] at hmem
    cases hmem
  · rw [List.concat_eq_append] at hown
    have hlast := hplain last (by simp [hown])
    change own.getLast?.map Attribute.value = some (settled own)
    rw [hown, settled_append_of_not_event front hlast]
    simp

theorem attributes_of_declared_interleaved :
    let nodes : List Node :=
      [("onclick", "", true), ("title", "x", false), ("onclick", "a", true), ("title", "y", false),
        ("onclick", "b", true)].map fun (name, value, isEvent) ↦
          { raw := [], kind := .attribute name.toList value.toList isEvent false, line := 1 }
    attributes {} (some "c".toList) nodes = [("class".toList, "c".toList),
        ("onclick".toList, "a b".toList), ("title".toList, "y".toList)] ∧
      "a b".toList = spaceJoin ((declarationsOf "onclick".toList
        (declared {} (some "c".toList) nodes)).map Attribute.value) := by
  intro nodes
  have hattrs : attributes {} (some "c".toList) nodes = [("class".toList, "c".toList),
      ("onclick".toList, "a b".toList), ("title".toList, "y".toList)] := by
    decide +kernel
  have hvalues := ((attributes_of_declared {} (some "c".toList)).1 nodes).2.2 "onclick".toList
    "a b".toList (by rw [hattrs]; decide)
  exact ⟨hattrs, hvalues.2 (by decide +kernel)⟩

end Markup

end StyledMarkup
