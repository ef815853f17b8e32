import StyledMarkup.Proofs.Builder.Ordinary
import StyledMarkup.Proofs.Outline

/-!
# Builders that differ in what is left out

What a statement does depends on little of the builder: the kind of the innermost block, the name of
the open attribute, and whether any block is open. So two builders that differ in nothing but nodes
to be left out stay that way as long as they take in the same texts, and one of them may take in a
statement that is left out at any time. In the end their documents have the same outline.
-/

namespace StyledMarkup.Builder

/-- The second builder is the first without the nodes that are to be left out. -/
structure Abridged (o : Omission) (b small : Builder) : Prop where
  doc : b.doc.Abridged o small.doc
  scopes_eq : small.scopes = b.scopes.map (b.doc.rank o)
  name_eq : small.openName = b.openName

/-- What an abridged builder does about a statement. -/
def follow (o : Omission) (small : Builder) (s : Statement) : Builder :=
  if s.isComment then small
  else if o.omits s.text (small.kindOf s) then
    { small with openAttribute := (small.takeIn s).openAttribute }
  else small.takeIn s

theorem keeps_of_opens {o : Omission} {doc : Document} {i : NodeId}
    (h : doc.has Node.isBlockOpen i = true) : doc.keeps o i = true := by
  obtain ⟨n, hn, hopens⟩ := Document.has_eq_true_iff.mp h
  rw [Document.keeps_of_get? hn, Bool.not_eq_true']
  apply Bool.eq_false_iff.mpr
  intro hdrops
  rw [Node.isBlockOpen, o.not_opens hdrops] at hopens
  cases hopens

namespace Abridged

variable {o : Omission} {b small : Builder} (h : b.Abridged o small) (hb : b.Housed)
include h

theorem refuses_eq {s s' : Statement} (htext : s'.text = s.text) :
    small.refuses s' = b.refuses s := by
  rw [refuses, refuses, h.name_eq, h.scopes_eq, List.isEmpty_map, Statement.closes,
    Statement.closes, htext]

include hb

theorem scope_eq : small.scope = b.scope := by
  unfold scope
  rw [h.scopes_eq]
  cases hscopes : b.scopes with
  | nil => rfl
  | cons i outer =>
    have hi := hb.scope_opens i (by rw [hscopes]; exact List.mem_cons_self)
    obtain ⟨n, hn, -⟩ := Document.has_eq_true_iff.mp hi
    have hkeeps := keeps_of_opens (o := o) hi
    rw [Document.keeps_of_get? hn, Bool.not_eq_true'] at hkeeps
    obtain ⟨m, hm, hbare, -, -⟩ := h.doc.node hn hkeeps
    have hkind : m.kind = n.kind := by
      change m.bare.kind = n.bare.kind
      rw [hbare]
    simp only [List.map_cons, hn, hm, Option.map_some, hkind]

theorem kindOf_eq {s s' : Statement} (htext : s'.text = s.text) : small.kindOf s' = b.kindOf s := by
  rw [kindOf, kindOf, h.name_eq, h.scope_eq hb, htext]

section TakeIn

variable {s s' : Statement} (htext : s'.text = s.text) (hs : s.isComment = false)
include hs

-- Later nodes do not change the ranks of the blocks that are open already.
theorem scopes_eq_takeIn : small.scopes = b.scopes.map ((b.takeIn s).doc.rank o) := by
  rw [h.scopes_eq, b.doc_takeIn hs]
  exact List.map_congr_left fun i hi ↦
    (Document.rank_graft hb.head?_lt s _ false false (Nat.le_of_lt (hb.lt_size hi))).symm

include htext

theorem openName_takeIn : (small.takeIn s').openName = (b.takeIn s).openName := by
  have hs' : s'.isComment = false := by rwa [Statement.isComment, htext]
  rw [b.openName_takeIn hs, small.openName_takeIn hs', h.name_eq, h.kindOf_eq hb htext]
  unfold nextName endsValue
  rw [htext]

/-- What is left out changes no more than the open attribute of the abridged builder. -/
theorem takeIn_omitted (homits : o.omits s.text (b.kindOf s) = true) :
    (b.takeIn s).Abridged o { small with openAttribute := (small.takeIn s').openAttribute } := by
  have hopens : s.opens = false := o.not_opens homits
  have hcloses : s.closes = false := beq_eq_false_iff_ne.mpr (o.not_closes homits)
  refine ⟨?_, ?_, h.openName_takeIn hb htext hs⟩
  · rw [b.doc_takeIn hs]
    exact h.doc.graft_omitted hb.linked hb.head?_lt false false homits
  · rw [b.scopes_takeIn hs, hopens, hcloses]
    simpa using h.scopes_eq_takeIn hb hs

/-- What is not left out is taken in by both builders. -/
theorem takeIn_kept (homits : o.omits s.text (b.kindOf s) = false) :
    (b.takeIn s).Abridged o (small.takeIn s') := by
  have hs' : s'.isComment = false := by rwa [Statement.isComment, htext]
  have hscopes := h.scopes_eq_takeIn hb hs
  refine ⟨?_, ?_, h.openName_takeIn hb htext hs⟩
  · have hkeeps : ∀ p, b.scopes.head? = some p → b.doc.keeps o p = true :=
      fun p hp ↦ keeps_of_opens (hb.scope_opens p (List.mem_of_head? hp))
    have hhead : small.scopes.head? = b.scopes.head?.map (b.doc.rank o) := by
      rw [h.scopes_eq, List.head?_map]
    rw [b.doc_takeIn hs, small.doc_takeIn hs', h.kindOf_eq hb htext, hhead]
    exact h.doc.graft hb.linked hb.head?_lt false false hkeeps homits htext false
  · have hopens : s'.opens = s.opens := by rw [Statement.opens, htext, Statement.opens]
    have hcloses : s'.closes = s.closes := by rw [Statement.closes, htext, Statement.closes]
    have hsize : (b.takeIn s).doc.rank o b.doc.size = small.doc.size := by
      rw [b.doc_takeIn hs, Document.rank_graft hb.head?_lt s _ false false (Nat.le_refl _),
        h.doc.size_eq]
    rw [b.scopes_takeIn hs, small.scopes_takeIn hs', h.name_eq, hopens, hcloses]
    -- Inside a value no block opens or closes.
    split
    · exact hscopes
    · split
      · rw [List.map_cons, hsize, hscopes]
      · split
        · rw [List.map_tail, hscopes]
        · exact hscopes

end TakeIn

/-- Whatever statement is taken in, one builder stays an abridged version of the other. -/
theorem takeIn {s s' : Statement} (htext : s'.text = s.text) :
    (b.takeIn s).Abridged o (small.follow o s') := by
  have hcomment : s'.isComment = s.isComment := by
    rw [Statement.isComment, htext, Statement.isComment]
  cases hs : s.isComment with
  | true =>
    rw [follow, hcomment, Builder.takeIn, hs]
    exact h
  | false =>
    rw [follow, if_neg (by simp [hcomment, hs]), htext, h.kindOf_eq hb htext]
    split
    · next homits => exact h.takeIn_omitted hb htext hs homits
    · next homits => exact h.takeIn_kept hb htext hs (Bool.of_not_eq_true homits)

end Abridged

/-! ## Twins -/

/-- Two builders that differ in nothing but what is left out. -/
structure Twins (o : Omission) (b b' : Builder) : Prop where
  left : b.Housed
  right : b'.Housed
  common : ∃ small, b.Abridged o small ∧ b'.Abridged o small

theorem twins_empty (o : Omission) : Twins o {} {} where
  left := housed_empty
  right := housed_empty
  common := ⟨{}, ⟨Document.abridged_empty, rfl, rfl⟩, ⟨Document.abridged_empty, rfl, rfl⟩⟩

namespace Twins

variable {o : Omission} {b b' : Builder} (h : Twins o b b')
include h

theorem symm : Twins o b' b :=
  ⟨h.right, h.left, h.common.imp fun _ ↦ And.symm⟩

theorem openName_eq : b'.openName = b.openName := by
  obtain ⟨small, hleft, hright⟩ := h.common
  exact hright.name_eq.symm.trans hleft.name_eq

theorem scope_eq : b'.scope = b.scope := by
  obtain ⟨small, hleft, hright⟩ := h.common
  exact (hright.scope_eq h.right).symm.trans (hleft.scope_eq h.left)

theorem scopes_eq_nil (hb : b.scopes = []) : b'.scopes = [] := by
  obtain ⟨small, hleft, hright⟩ := h.common
  have hmap := hright.scopes_eq.symm.trans hleft.scopes_eq
  rwa [hb, List.map_nil, List.map_eq_nil_iff] at hmap

section SameText

variable {s s' : Statement} (htext : s'.text = s.text)
include htext

theorem refuses_eq : b'.refuses s' = b.refuses s := by
  obtain ⟨small, hleft, hright⟩ := h.common
  exact (hright.refuses_eq rfl).symm.trans (hleft.refuses_eq htext)

theorem kindOf_eq : b'.kindOf s' = b.kindOf s := by
  rw [kindOf, kindOf, h.openName_eq, h.scope_eq, htext]

theorem takeIn : Twins o (b.takeIn s) (b'.takeIn s') := by
  obtain ⟨small, hleft, hright⟩ := h.common
  exact ⟨h.left.takeIn s, h.right.takeIn s', small.follow o s',
    hleft.takeIn h.left htext, hright.takeIn h.right rfl⟩

theorem declared_eq : b'.declared s' = b.declared s := by
  rw [declared, declared, h.kindOf_eq htext, Statement.isComment, htext, Statement.isComment]

end SameText

/-- One of the two may take in what is left out. -/
theorem takeIn_left {s : Statement} (homits : o.omits s.text (b.kindOf s) = true)
    (hname : (b.takeIn s).openName = b.openName) : Twins o (b.takeIn s) b' := by
  obtain ⟨small, hleft, hright⟩ := h.common
  have htaken := hleft.takeIn h.left (s := s) rfl
  have hfollow : (small.follow o s).doc = small.doc ∧ (small.follow o s).scopes = small.scopes := by
    unfold follow
    rw [hleft.kindOf_eq h.left rfl, if_pos homits]
    split <;> exact ⟨rfl, rfl⟩
  refine ⟨h.left.takeIn s, h.right, small, ⟨?_, ?_, ?_⟩, hright⟩
  · rw [← hfollow.1]
    exact htaken.doc
  · rw [← hfollow.2]
    exact htaken.scopes_eq
  · rw [hleft.name_eq, hname]

/-- Twins that take in the same texts stay twins and declare the same variables meanwhile. -/
theorem takeAll {c : Builder} {statements statements' : List Statement}
    (htexts : statements'.map Statement.text = statements.map Statement.text)
    (hc : b.takeAll statements = some c) :
    ∃ c', b'.takeAll statements' = some c' ∧ Twins o c c' ∧
      ∃ more, c.doc.declarations = b.doc.declarations ++ more ∧
        c'.doc.declarations = b'.doc.declarations ++ more := by
  induction statements generalizing b b' statements' with
  | nil =>
    obtain rfl := Option.some.inj hc
    rw [List.map_nil, List.map_eq_nil_iff] at htexts
    rw [htexts]
    exact ⟨b', rfl, h, [], (List.append_nil _).symm, (List.append_nil _).symm⟩
  | cons s rest ih =>
    cases statements' with
    | nil => cases htexts
    | cons s' rest' =>
      obtain ⟨htext, htexts⟩ := List.cons.inj htexts
      obtain ⟨hrefuses, hc⟩ := takeAll_cons_eq_some hc
      obtain ⟨c', hc', htwins, more, hmore, hmore'⟩ := ih (h.takeIn htext) htexts hc
      refine ⟨c', ?_, htwins, b.declared s ++ more, ?_, ?_⟩
      · rw [takeAll_cons ((h.refuses_eq htext).trans hrefuses), hc']
      · rw [hmore, h.left.declarations_takeIn, List.append_assoc]
      · rw [hmore', h.right.declarations_takeIn, h.declared_eq htext, List.append_assoc]

/-- The documents that are rendered have the same outline. -/
theorem outlineAll_forest :
    Tree.outlineAll o b.doc.suppressDeclarations.forest =
      Tree.outlineAll o b'.doc.suppressDeclarations.forest := by
  obtain ⟨small, hleft, hright⟩ := h.common
  have houtline : ∀ {b : Builder}, b.Housed → b.Abridged o small →
      Tree.outlineAll o small.doc.suppressDeclarations.forest =
        Tree.outlineAll o b.doc.suppressDeclarations.forest := by
    intro b hb hsmall
    refine hsmall.doc.suppressDeclarations.outlineAll_forest hb.linked.suppressDeclarations ?_
    intro j i hj
    rw [Document.parent?_suppressDeclarations] at hj
    rw [Document.keeps_suppressDeclarations]
    exact keeps_of_opens (hb.parent_opens hj)
  rw [← houtline h.left hleft, houtline h.right hright]

end Twins

end StyledMarkup.Builder
