import StyledMarkup.Proofs.Builder.Step

/-!
# The forest of a document

While a document is built, the open blocks are distinct nodes, each older than those inside it, and
none of them has a closing brace yet. Every other node that opens a block, or that has anything
below it, has exactly one closing brace, as its last child. When no block is open any more, this
holds of all nodes: the document is a forest that mirrors the braces of its statements.
-/

namespace StyledMarkup

/-- The statement of the node ends in an opening brace. -/
def Node.isBlockOpen (n : Node) : Bool :=
  n.raw.endsWith '{'

namespace Document

/-! ## Nodes by themselves -/

/-- What holds of the nodes of a document while it is built. -/
structure Sound (doc : Document) : Prop where
  linked : doc.Linked
  index : ∀ j n, doc.get? j = some n → n.sourceIndex = j
  trimmed : ∀ j n, doc.get? j = some n → n.raw.IsTrimmed
  close : ∀ j n, doc.get? j = some n → n.isBlockClose = true →
    n.kind = .generic ∧ n.suppressed = false ∧ n.parent.isSome = true

theorem sound_empty : ({} : Document).Sound where
  linked := linked_empty
  index := by simp [get?]
  trimmed := by simp [get?]
  close := by simp [get?]

theorem isBlockClose_adopt (n : Node) (id : NodeId) (asAttribute : Bool) :
    (n.adopt id asAttribute).isBlockClose = n.isBlockClose := by
  cases asAttribute <;> rfl

theorem isBlockOpen_adopt (n : Node) (id : NodeId) (asAttribute : Bool) :
    (n.adopt id asAttribute).isBlockOpen = n.isBlockOpen := by
  cases asAttribute <;> rfl

theorem isBlockClose_leaf {s : Statement} (hs : s.IsShaped) (doc : Document)
    (parent : Option NodeId) (kind : NodeKind) (suppressed expanded : Bool) :
    (doc.leaf parent s kind suppressed expanded).isBlockClose = s.closes := by
  simp only [Node.isBlockClose, leaf, hs.trimmed.trim_eq, Statement.closes]

theorem Sound.graft {doc : Document} (h : doc.Sound) {parent : Option NodeId}
    (hparent : ∀ p, parent = some p → p < doc.size) {s : Statement} (hs : s.IsShaped)
    {kind : NodeKind} {suppressed : Bool} (expanded : Bool)
    (hclose : s.closes = true → kind = .generic ∧ suppressed = false ∧ parent.isSome = true) :
    (doc.graft parent s kind suppressed expanded).Sound := by
  refine ⟨h.linked.graft hparent s kind suppressed expanded, ?_, ?_, ?_⟩
  · refine forall_graft doc s kind suppressed expanded ?_ hparent h.index rfl
    intro j n id asAttribute hn
    cases asAttribute <;> exact hn
  · refine forall_graft doc s kind suppressed expanded ?_ hparent h.trimmed hs.trimmed
    intro j n id asAttribute hn
    cases asAttribute <;> exact hn
  · refine forall_graft doc s kind suppressed expanded (P := fun _ n ↦ n.isBlockClose = true →
      n.kind = .generic ∧ n.suppressed = false ∧ n.parent.isSome = true) ?_ hparent h.close ?_
    · intro j n id asAttribute hn
      cases asAttribute <;> exact hn
    · intro hleaf
      exact hclose (by rwa [isBlockClose_leaf hs] at hleaf)

/-- The node has a single closing brace directly below it, and nothing comes later. -/
def ClosedBy (doc : Document) (i c : NodeId) : Prop :=
  doc.parent? c = some i ∧ doc.has Node.isBlockClose c = true ∧
    ∀ j, doc.parent? j = some i → j ≠ c → j < c ∧ doc.has Node.isBlockClose j = false

theorem ClosedBy.graft {doc : Document} {i c : NodeId} (h : doc.ClosedBy i c)
    {parent : Option NodeId} (hparent : ∀ p, parent = some p → p < doc.size)
    (hother : parent ≠ some i) (s : Statement) (kind : NodeKind) (suppressed expanded : Bool) :
    (doc.graft parent s kind suppressed expanded).ClosedBy i c := by
  obtain ⟨hc, hclose, hlast⟩ := h
  have hne : c ≠ doc.size := Nat.ne_of_lt (lt_size_of_parent? hc)
  refine ⟨?_, ?_, ?_⟩
  · rw [parent?_graft doc s kind suppressed expanded hparent, if_neg hne]
    exact hc
  · rw [has_graft doc s kind suppressed expanded isBlockClose_adopt hparent, if_neg hne]
    exact hclose
  · intro j hj hjc
    rw [parent?_graft doc s kind suppressed expanded hparent] at hj
    split at hj
    · exact absurd hj hother
    · next hjne =>
      rw [has_graft doc s kind suppressed expanded isBlockClose_adopt hparent, if_neg hjne]
      exact hlast j hj hjc

end Document

namespace Builder

/-! ## The open blocks -/

/-- The node has to have a closing brace. -/
def Encloses (b : Builder) (i : NodeId) : Prop :=
  b.doc.has (fun n ↦ n.isBlockOpen && !n.isAttribute) i = true ∨ ∃ j, b.doc.parent? j = some i

/-- What holds of a builder between any two statements. -/
structure Sound (b : Builder) : Prop where
  doc_sound : b.doc.Sound
  attentive : b.Attentive
  scopes_lt : ∀ i ∈ b.scopes, i < b.doc.size
  scopes_sorted : b.scopes.Pairwise (· > ·)
  scope_opens : ∀ i ∈ b.scopes, b.doc.has Node.isBlockOpen i = true
  scope_unclosed : ∀ i ∈ b.scopes, ∀ j, b.doc.parent? j = some i →
    b.doc.has Node.isBlockClose j = false
  closed : ∀ i, i ∉ b.scopes → b.Encloses i →
    b.doc.has Node.isBlockOpen i = true ∧ ∃ c, b.doc.ClosedBy i c

theorem sound_empty : ({} : Builder).Sound where
  doc_sound := Document.sound_empty
  attentive := by simp [Attentive]
  scopes_lt := by simp
  scopes_sorted := List.Pairwise.nil
  scope_opens := by simp
  scope_unclosed := by simp
  closed := by simp [Encloses, Document.has, Document.parent?, Document.get?]

theorem Sound.head?_lt {b : Builder} (h : b.Sound) :
    ∀ p, b.scopes.head? = some p → p < b.doc.size :=
  fun p hp ↦ h.scopes_lt p (List.mem_of_head? hp)

section Growth

variable {b : Builder} (h : b.Sound) {s : Statement} (hs : s.IsShaped) (kind : NodeKind)
  (suppressed expanded : Bool)
include h

theorem Sound.parent?_graft (j : NodeId) :
    (b.doc.graft b.scopes.head? s kind suppressed expanded).parent? j =
      if j = b.doc.size then b.scopes.head? else b.doc.parent? j :=
  Document.parent?_graft b.doc s kind suppressed expanded h.head?_lt j

theorem Sound.isBlockOpen_graft (i : NodeId) :
    (b.doc.graft b.scopes.head? s kind suppressed expanded).has Node.isBlockOpen i =
      if i = b.doc.size then s.opens else b.doc.has Node.isBlockOpen i :=
  Document.has_graft b.doc s kind suppressed expanded Document.isBlockOpen_adopt h.head?_lt i

include hs in
theorem Sound.isBlockClose_graft (i : NodeId) :
    (b.doc.graft b.scopes.head? s kind suppressed expanded).has Node.isBlockClose i =
      if i = b.doc.size then s.closes else b.doc.has Node.isBlockClose i := by
  rw [Document.has_graft b.doc s kind suppressed expanded Document.isBlockClose_adopt h.head?_lt,
    Document.isBlockClose_leaf hs]

theorem Sound.parent?_graft_ne_size (j : NodeId) :
    (b.doc.graft b.scopes.head? s kind suppressed expanded).parent? j ≠ some b.doc.size := by
  intro hj
  have hlinked := h.doc_sound.linked.graft h.head?_lt s kind suppressed expanded
  have hlt : b.doc.size < j := hlinked.parent_lt hj
  have hle := Document.lt_size_of_parent? hj
  rw [Document.size_graft] at hle
  exact Nat.lt_irrefl _ (Nat.lt_of_lt_of_le hlt (Nat.le_of_lt_succ hle))

theorem Sound.opens_of_encloses {b' : Builder}
    (hdoc : b'.doc = b.doc.graft b.scopes.head? s kind suppressed expanded)
    (hencloses : b'.Encloses b.doc.size) : s.opens = true ∧ kind.isAttribute = false := by
  unfold Encloses at hencloses
  rw [hdoc, Document.has_graft b.doc s kind suppressed expanded
    (by intro n id asAttribute; cases asAttribute <;> rfl) h.head?_lt, if_pos rfl] at hencloses
  rcases hencloses with hopen | ⟨j, hj⟩
  · obtain ⟨hopens, hkind⟩ := Bool.and_eq_true_iff.mp hopen
    refine ⟨hopens, ?_⟩
    cases kind <;> simp_all [Node.isAttribute, NodeKind.isAttribute, Document.leaf]
  · exact absurd hj (h.parent?_graft_ne_size kind suppressed expanded j)

theorem Sound.closed_graft {b' : Builder}
    (hdoc : b'.doc = b.doc.graft b.scopes.head? s kind suppressed expanded) {i : NodeId}
    (hi : i ≠ b.doc.size) (hout : i ∉ b.scopes) (hencloses : b'.Encloses i) :
    b'.doc.has Node.isBlockOpen i = true ∧ ∃ c, b'.doc.ClosedBy i c := by
  have hhead : b.scopes.head? ≠ some i := fun heq ↦ hout (List.mem_of_head? heq)
  have hold : b.Encloses i := by
    unfold Encloses at hencloses
    rw [hdoc, Document.has_graft b.doc s kind suppressed expanded
      (by intro n id asAttribute; cases asAttribute <;> rfl) h.head?_lt, if_neg hi] at hencloses
    refine hencloses.imp_right ?_
    rintro ⟨j, hj⟩
    rw [h.parent?_graft] at hj
    split at hj
    · exact absurd hj hhead
    · exact ⟨j, hj⟩
  obtain ⟨hopen, c, hc⟩ := h.closed i hout hold
  rw [hdoc, h.isBlockOpen_graft, if_neg hi]
  exact ⟨hopen, c, hc.graft h.head?_lt hhead s kind suppressed expanded⟩

include hs

/-- A new node that closes nothing keeps the builder sound, if it is opened as a block whenever it
has to have a closing brace. -/
theorem Sound.grow {b' : Builder} (hcloses : s.closes = false)
    (hdoc : b'.doc = b.doc.graft b.scopes.head? s kind suppressed expanded)
    (hscopes : b'.scopes = b.scopes ∧ (s.opens = true → kind.isAttribute = true) ∨
      b'.scopes = b.doc.size :: b.scopes ∧ s.opens = true)
    (hattentive : b'.Attentive) : b'.Sound := by
  have hmem : ∀ i, i ∈ b'.scopes → i ∈ b.scopes ∨ i = b.doc.size ∧ s.opens = true := by
    intro i hi
    rcases hscopes with ⟨heq, -⟩ | ⟨heq, hopens⟩
    · exact Or.inl (heq ▸ hi)
    · rw [heq, List.mem_cons] at hi
      exact hi.symm.imp_right fun hi ↦ ⟨hi, hopens⟩
  have hsub : ∀ i ∈ b.scopes, i ∈ b'.scopes := by
    intro i hi
    rcases hscopes with ⟨heq, -⟩ | ⟨heq, -⟩ <;> simp [heq, hi]
  refine ⟨?_, hattentive, ?_, ?_, ?_, ?_, ?_⟩
  · rw [hdoc]
    exact h.doc_sound.graft h.head?_lt hs expanded (by simp [hcloses])
  · intro i hi
    rw [hdoc, Document.size_graft]
    rcases hmem i hi with hi | ⟨rfl, -⟩
    · exact Nat.lt_succ_of_lt (h.scopes_lt i hi)
    · exact Nat.lt_succ_self _
  · rcases hscopes with ⟨heq, -⟩ | ⟨heq, -⟩
    · rw [heq]
      exact h.scopes_sorted
    · rw [heq]
      exact List.Pairwise.cons h.scopes_lt h.scopes_sorted
  · intro i hi
    rw [hdoc, h.isBlockOpen_graft]
    rcases hmem i hi with hi | ⟨rfl, hopens⟩
    · rw [if_neg (Nat.ne_of_lt (h.scopes_lt i hi))]
      exact h.scope_opens i hi
    · rw [if_pos rfl]
      exact hopens
  · intro i hi j hj
    rw [hdoc] at hj ⊢
    rw [h.isBlockClose_graft hs]
    split
    · exact hcloses
    · next hjne =>
      rcases hmem i hi with hi | ⟨rfl, -⟩
      · rw [h.parent?_graft, if_neg hjne] at hj
        exact h.scope_unclosed i hi j hj
      · exact absurd hj (h.parent?_graft_ne_size kind suppressed expanded j)
  · intro i hi hencloses
    by_cases hsize : i = b.doc.size
    · -- The new node itself would have been opened as a block.
      exfalso
      subst hsize
      obtain ⟨hopens, hkind⟩ := h.opens_of_encloses kind suppressed expanded hdoc hencloses
      rcases hscopes with ⟨-, hattr⟩ | ⟨heq, -⟩
      · rw [hattr hopens] at hkind
        cases hkind
      · exact hi (by simp [heq])
    · exact h.closed_graft kind suppressed expanded hdoc hsize (fun hin ↦ hi (hsub i hin)) hencloses

theorem Sound.shrink {b' : Builder} {id : NodeId} {outer : List NodeId} (hcloses : s.closes = true)
    (hscopes : b.scopes = id :: outer) (hscopes' : b'.scopes = outer)
    (hdoc : b'.doc = b.doc.graft b.scopes.head? s .generic false expanded)
    (hattentive : b'.Attentive) : b'.Sound := by
  have hhead : b.scopes.head? = some id := by simp [hscopes]
  have hid : id ∈ b.scopes := by simp [hscopes]
  have hsorted := h.scopes_sorted
  rw [hscopes, List.pairwise_cons] at hsorted
  have hidout : id ∉ outer := fun hin ↦ Nat.lt_irrefl _ (hsorted.1 id hin)
  have hsub : ∀ i ∈ outer, i ∈ b.scopes := by
    intro i hi
    simp [hscopes, hi]
  refine ⟨?_, hattentive, ?_, ?_, ?_, ?_, ?_⟩
  · rw [hdoc]
    exact h.doc_sound.graft h.head?_lt hs expanded (by simp [hhead])
  · intro i hi
    rw [hdoc, Document.size_graft]
    exact Nat.lt_succ_of_lt (h.scopes_lt i (hsub i (hscopes' ▸ hi)))
  · rw [hscopes']
    exact hsorted.2
  · intro i hi
    have hin := hsub i (hscopes' ▸ hi)
    rw [hdoc, h.isBlockOpen_graft, if_neg (Nat.ne_of_lt (h.scopes_lt i hin))]
    exact h.scope_opens i hin
  · intro i hi j hj
    rw [hscopes'] at hi
    rw [hdoc] at hj ⊢
    rw [h.parent?_graft, hhead] at hj
    rw [h.isBlockClose_graft hs]
    split at hj
    · exact absurd hi (Option.some.inj hj ▸ hidout)
    · next hjne =>
      rw [if_neg hjne]
      exact h.scope_unclosed i (hsub i hi) j hj
  · intro i hi hencloses
    rw [hscopes'] at hi
    have hsize : i ≠ b.doc.size := by
      rintro rfl
      have hopens := (h.opens_of_encloses .generic false expanded hdoc hencloses).1
      rw [not_closes_of_opens hopens] at hcloses
      cases hcloses
    by_cases hiid : i = id
    · -- The block that is closed here: nothing below it was a closing brace before.
      subst hiid
      rw [hdoc, h.isBlockOpen_graft, if_neg hsize]
      refine ⟨h.scope_opens i hid, b.doc.size, ?_, ?_, ?_⟩
      · rw [h.parent?_graft, if_pos rfl]
        exact hhead
      · rw [h.isBlockClose_graft hs, if_pos rfl]
        exact hcloses
      · intro j hj hjne
        rw [h.parent?_graft, if_neg hjne] at hj
        rw [h.isBlockClose_graft hs, if_neg hjne]
        exact ⟨Document.lt_size_of_parent? hj, h.scope_unclosed i hid j hj⟩
    · have hout : i ∉ b.scopes := by simp [hscopes, hiid, hi]
      exact h.closed_graft .generic false expanded hdoc hsize hout hencloses

end Growth

/-- Whatever a statement does, the builder stays sound. -/
theorem Sound.intake {b b' : Builder} (h : b.Sound) {s : Statement} (hs : s.IsShaped)
    {expanded : Bool} {role : Role} (hintake : Intake b s expanded role b') : b'.Sound := by
  have hattentive := hintake.attentive h.attentive h.scopes_lt
  cases hintake with
  | skip => exact h
  | leaf role kind suppressed openAttribute hrole hmixin hopens hcloses hvalue =>
    exact h.grow hs kind suppressed expanded hcloses rfl (Or.inl ⟨rfl, hopens⟩) hattentive
  | opener role kind suppressed hopens hrole =>
    exact h.grow hs kind suppressed expanded (not_closes_of_opens hopens) rfl
      (Or.inr ⟨rfl, hopens⟩) hattentive
  | closer id outer hcloses hscopes =>
    refine h.shrink hs expanded hcloses hscopes ?_ ?_ hattentive
    · simp [hscopes]
    · simp [hscopes]

end Builder

end StyledMarkup
