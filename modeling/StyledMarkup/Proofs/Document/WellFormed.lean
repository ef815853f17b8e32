import Mathlib
import StyledMarkup.Proofs.Builder.Feed

/-!
# Well-formed documents

The document of a source is a forest that mirrors the braces of its statements: every node stands in
one list, below a node that came before it, and every block ends in its closing brace.
-/

namespace StyledMarkup

namespace Document

/-- A forest that mirrors braces. -/
structure WellFormed (doc : Document) : Prop where
  index : ∀ {i n}, doc.get? i = some n → n.sourceIndex = i
  listed_once : (doc.roots ++ doc.nodes.toList.flatMap Node.below).Perm (List.range doc.size)
  roots_increasing : doc.roots.Pairwise (· < ·)
  attrs_increasing : ∀ {i n}, doc.get? i = some n → n.attrs.Pairwise (· < ·)
  children_increasing : ∀ {i n}, doc.get? i = some n → n.children.Pairwise (· < ·)
  parent_iff : ∀ {i j}, doc.parent? j = some i ↔ j ∈ doc.below i
  parent_lt : ∀ {i j}, doc.parent? j = some i → i < j
  root_iff : ∀ {j}, j ∈ doc.roots ↔ j < doc.size ∧ doc.parent? j = none
  attrs_only : ∀ {i n}, doc.get? i = some n → ∀ j ∈ n.attrs, doc.has Node.isAttribute j = true
  children_only : ∀ {i n}, doc.get? i = some n → ∀ j ∈ n.children,
    doc.has (fun m ↦ !m.isAttribute) j = true
  /-- A block that is no attribute has one closing brace, as its last child. -/
  block_closed : ∀ {i n}, doc.get? i = some n → n.isAttribute = false → n.isBlockOpen = true →
    ∃ c, n.children.filter (doc.has Node.isBlockClose) = [c] ∧ n.children.getLast? = some c
  /-- Only blocks have anything below them, and it ends in a closing brace. -/
  below_closed : ∀ {i n}, doc.get? i = some n → n.below ≠ [] → n.isBlockOpen = true ∧
    ∃ c, n.children.getLast? = some c ∧ doc.has Node.isBlockClose c = true
  root_not_close : ∀ j ∈ doc.roots, doc.has Node.isBlockClose j = false

theorem has_eq_true_iff {doc : Document} {p : Node → Bool} {j : NodeId} :
    doc.has p j = true ↔ ∃ n, doc.get? j = some n ∧ p n = true := by
  simp [has, Option.any_eq_true]

theorem has_of_get? {doc : Document} {j : NodeId} {n : Node} (h : doc.get? j = some n)
    (p : Node → Bool) : doc.has p j = p n := by
  simp [has, h]

theorem Sound.not_isAttribute_of_close {doc : Document} (h : doc.Sound) {c : NodeId}
    (hc : doc.has Node.isBlockClose c = true) : doc.has Node.isAttribute c = false := by
  obtain ⟨n, hn, hclose⟩ := has_eq_true_iff.mp hc
  rw [has_of_get? hn, Node.isAttribute, (h.close c n hn hclose).1]

/-- The closing brace of a node comes last among its children and is the only one. -/
theorem Sound.children_of_closedBy {doc : Document} (h : doc.Sound) {i c : NodeId} {n : Node}
    (hn : doc.get? i = some n) (hc : doc.ClosedBy i c) :
    ∃ before, n.children = before ++ [c] ∧ ∀ j ∈ before, doc.has Node.isBlockClose j = false := by
  obtain ⟨hparent, hclose, hlast⟩ := hc
  have hmem : c ∈ n.children :=
    (h.linked.mem_children hn).mpr ⟨hparent, h.not_isAttribute_of_close hclose⟩
  have hsorted := h.linked.sorted_children hn
  obtain ⟨before, after, hsplit⟩ := List.append_of_mem hmem
  rw [hsplit, List.pairwise_append, List.pairwise_cons] at hsorted
  have hchild : ∀ j ∈ n.children, doc.parent? j = some i :=
    fun j hj ↦ ((h.linked.mem_children hn).mp hj).1
  have hafter : after = [] := by
    apply List.eq_nil_iff_forall_not_mem.mpr
    intro j hj
    have hcj : c < j := hsorted.2.1.1 j hj
    exact Nat.lt_asymm hcj (hlast j (hchild j (by simp [hsplit, hj])) (Nat.ne_of_gt hcj)).1
  refine ⟨before, by rw [hsplit, hafter], ?_⟩
  intro j hj
  have hjc : j < c := hsorted.2.2 j hj c List.mem_cons_self
  exact (hlast j (hchild j (by simp [hsplit, hj])) (Nat.ne_of_lt hjc)).2

end Document

/-- Without open blocks, whatever has to have a closing brace has one. -/
theorem Builder.Sound.exists_brace {b : Builder} (h : b.Sound) (hscopes : b.scopes = [])
    {i : NodeId} {n : Node} (hn : b.doc.get? i = some n) (hi : b.Encloses i) :
    n.isBlockOpen = true ∧
      ∃ before c, n.children = before ++ [c] ∧ b.doc.has Node.isBlockClose c = true ∧
        ∀ j ∈ before, b.doc.has Node.isBlockClose j = false := by
  obtain ⟨hopen, c, hc⟩ := h.closed i (by simp [hscopes]) hi
  obtain ⟨before, hchildren, hbefore⟩ := h.doc_sound.children_of_closedBy hn hc
  rw [Document.has_of_get? hn] at hopen
  exact ⟨hopen, before, c, hchildren, hc.2.1, hbefore⟩

theorem Builder.Sound.wellFormed {b : Builder} (h : b.Sound) (hscopes : b.scopes = []) :
    b.doc.WellFormed := by
  have hlinked := h.doc_sound.linked
  refine ⟨fun hn ↦ h.doc_sound.index _ _ hn, hlinked.perm_range, hlinked.sorted_roots,
    hlinked.sorted_attrs, hlinked.sorted_children, hlinked.mem_below.symm, hlinked.parent_lt,
    hlinked.mem_roots, ?_, ?_, ?_, ?_, ?_⟩
  · exact fun hn j hj ↦ ((hlinked.mem_attrs hn).mp hj).2
  · intro i n hn j hj
    obtain ⟨hparent, hkind⟩ := (hlinked.mem_children hn).mp hj
    obtain ⟨m, hm⟩ := Document.exists_get? (Document.lt_size_of_parent? hparent)
    rw [Document.has_of_get? hm] at hkind ⊢
    simp [hkind]
  · intro i n hn hattr hopen
    have hi : b.Encloses i := Or.inl (by rw [Document.has_of_get? hn]; simp [hattr, hopen])
    obtain ⟨-, before, c, hchildren, hc, hbefore⟩ := h.exists_brace hscopes hn hi
    refine ⟨c, ?_, by simp [hchildren]⟩
    have hnone : before.filter (b.doc.has Node.isBlockClose) = [] := by
      simpa [List.filter_eq_nil_iff] using hbefore
    rw [hchildren, List.filter_append, hnone, List.filter_singleton, hc]
    rfl
  · intro i n hn hbelow
    obtain ⟨j, hj⟩ := List.exists_mem_of_ne_nil _ hbelow
    have hparent : b.doc.parent? j = some i :=
      hlinked.mem_below.mp (by simpa [Document.below, hn] using hj)
    obtain ⟨hopen, before, c, hchildren, hc, -⟩ :=
      h.exists_brace hscopes hn (Or.inr ⟨j, hparent⟩)
    exact ⟨hopen, c, by simp [hchildren], hc⟩
  · intro j hj
    apply Bool.eq_false_iff.mpr
    intro hclose
    obtain ⟨n, hn, hclose⟩ := Document.has_eq_true_iff.mp hclose
    have hparent := (hlinked.mem_roots.mp hj).2
    rw [Document.parent?, hn, Option.bind_some] at hparent
    have hsome := (h.doc_sound.close j n hn hclose).2.2
    rw [hparent] at hsome
    cases hsome

theorem Builder.Sound.finish_eq_ok {b : Builder} (h : b.Sound) {doc : Document}
    (hfinish : b.finish = .ok doc) : b.doc = doc ∧ b.scopes = [] := by
  unfold Builder.finish at hfinish
  split at hfinish
  · cases hfinish
  · split at hfinish
    · cases hfinish
    · next hnone =>
      refine ⟨Except.ok.inj hfinish, ?_⟩
      cases hscopes : b.scopes with
      | nil => rfl
      | cons id outer =>
        obtain ⟨n, hn⟩ := Document.exists_get? (h.scopes_lt id (by simp [hscopes]))
        simp [hscopes, hn] at hnone

theorem exists_sound_of_parse {settings : Settings} {base : Path} {source : Text} {doc : Document}
    (h : Document.parse settings base source = .ok doc) :
    ∃ b : Builder, b.Sound ∧ b.doc = doc ∧ b.scopes = [] := by
  obtain ⟨m, hm, -, hfinish⟩ := exists_reachable_of_parse h
  exact ⟨m.builder, hm.sound.builder_sound, hm.sound.builder_sound.finish_eq_ok hfinish⟩

/-- Whatever the loader returns, a source that is parsed at all gives a forest that mirrors its
braces. -/
theorem Document.parse_wellFormed {settings : Settings} {base : Path} {source : Text}
    {doc : Document} (h : Document.parse settings base source = .ok doc) : doc.WellFormed := by
  obtain ⟨b, hb, rfl, hscopes⟩ := exists_sound_of_parse h
  exact hb.wellFormed hscopes

theorem Document.parse_wellFormed_import :
    ∃ doc, Document.parse
        ⟨(Library.ofList [(⟨"a".toList⟩, "p \x7b\n\x7d".toList)]).load, 32⟩ ⟨[]⟩
        "div \x7b\n@import 'a';\n\x7d".toList = .ok doc ∧ doc.size = 4 ∧ doc.WellFormed := by
  have hscan : Statement.scan "div \x7b\n@import 'a';\n\x7d".toList =
      .ok [⟨"div \x7b".toList, 1⟩, ⟨"@import 'a';".toList, 2⟩, ⟨"\x7d".toList, 3⟩] := by
    cbv
  have hparse : ∃ doc, Document.parse
      ⟨(Library.ofList [(⟨"a".toList⟩, "p \x7b\n\x7d".toList)]).load, 32⟩ ⟨[]⟩
      "div \x7b\n@import 'a';\n\x7d".toList = .ok doc ∧ doc.size = 4 := by
    refine ⟨?_, ?_, ?_⟩
    rotate_left
    · rw [Document.parse, hscan]
      simp only [Document.ofStatements]
      rw [Builder.feed_next rfl, Builder.feed_nested rfl (by decide)
        ((Builder.feed_next rfl).trans ((Builder.feed_next rfl).trans Builder.feed_nil)) rfl,
        Builder.feed_next rfl, Builder.feed_nil]
      rfl
    · rfl
  obtain ⟨doc, hdoc, hsize⟩ := hparse
  exact ⟨doc, hdoc, hsize, Document.parse_wellFormed hdoc⟩

end StyledMarkup
