import StyledMarkup.Proofs.Builder.Twins

/-!
# Moving a declaration

A declaration counts for the whole document, wherever it stands, and leaves no trace of its own in
either rendering. So it can be moved to any place where no value is being collected: the nodes
around it move up or down by one number, and the variables are collected in another order. With
distinct names the order makes no difference to what a text is resolved to.
-/

namespace StyledMarkup

/-! ## The order of bindings -/

namespace Bindings

variable {b b' : Bindings}

theorem perm_insert (h : b.entries.Perm b'.entries) (name value : Text) :
    (b.insert name value).entries.Perm (b'.insert name value).entries :=
  (h.filter _).append_right _

theorem perm_insert_swap (b : Bindings) {name other : Text} (hne : name ≠ other)
    (value otherValue : Text) :
    ((b.insert name value).insert other otherValue).entries.Perm
      ((b.insert other otherValue).insert name value).entries := by
  have hswap : ∀ {name other : Text}, name ≠ other → ∀ value otherValue,
      ((b.insert name value).insert other otherValue).entries =
        b.entries.filter (fun entry ↦ entry.1 != name && entry.1 != other) ++
          [(name, value), (other, otherValue)] := by
    intro name other hne value otherValue
    simp [insert, hne, Bool.and_comm]
  rw [hswap hne, hswap hne.symm]
  simp only [Bool.and_comm]
  exact (List.Perm.swap _ _ _).append_left _

theorem perm_insertAll_left (h : b.entries.Perm b'.entries) (entries : List (Text × Text)) :
    (b.insertAll entries).entries.Perm (b'.insertAll entries).entries := by
  induction entries generalizing b b' with
  | nil => exact h
  | cons entry rest ih => exact ih (perm_insert h entry.1 entry.2)

/-- Distinct names can be bound in any order. -/
theorem perm_insertAll (b : Bindings) {entries entries' : List (Text × Text)}
    (h : entries.Perm entries') (hnames : (entries.map Prod.fst).Nodup) :
    (b.insertAll entries).entries.Perm (b.insertAll entries').entries := by
  induction h generalizing b with
  | nil => exact List.Perm.refl _
  | cons entry _ ih => exact ih _ (List.nodup_cons.mp hnames).2
  | swap first second rest =>
    have hne : second.1 ≠ first.1 := by
      intro heq
      simp [heq] at hnames
    exact perm_insertAll_left (perm_insert_swap b hne second.2 first.2) rest
  | trans hfirst _ ih₁ ih₂ =>
    exact (ih₁ b hnames).trans (ih₂ b ((hfirst.map Prod.fst).nodup_iff.mp hnames))

theorem nodup_insert (h : (b.entries.map Prod.fst).Nodup) (name value : Text) :
    ((b.insert name value).entries.map Prod.fst).Nodup := by
  rw [insert, List.map_append, List.nodup_append]
  refine ⟨h.sublist (List.filter_sublist.map Prod.fst), List.nodup_singleton _, ?_⟩
  rintro other hother _ hname rfl
  obtain ⟨entry, hentry, rfl⟩ := List.mem_map.mp hother
  have hne := (List.mem_filter.mp hentry).2
  simp_all

theorem nodup_insertAll (h : (b.entries.map Prod.fst).Nodup) (entries : List (Text × Text)) :
    ((b.insertAll entries).entries.map Prod.fst).Nodup := by
  induction entries generalizing b with
  | nil => exact h
  | cons entry rest ih => exact ih (nodup_insert h entry.1 entry.2)

theorem lookup_eq_of_perm {entries entries' : List (Text × Text)} (h : entries.Perm entries')
    (hnames : (entries.map Prod.fst).Nodup) (name : Text) :
    entries.lookup name = entries'.lookup name := by
  induction h with
  | nil => rfl
  | cons entry _ ih => rw [List.lookup_cons, List.lookup_cons, ih (List.nodup_cons.mp hnames).2]
  | swap first second rest =>
    have hne : second.1 ≠ first.1 := by
      intro heq
      simp [heq] at hnames
    rw [List.lookup_cons, List.lookup_cons, List.lookup_cons, List.lookup_cons]
    by_cases hfirst : name = first.1
    · simp [hfirst, beq_eq_false_iff_ne.mpr hne.symm]
    · simp [beq_eq_false_iff_ne.mpr hfirst]
  | trans hfirst _ ih₁ ih₂ =>
    exact (ih₁ hnames).trans (ih₂ ((hfirst.map Prod.fst).nodup_iff.mp hnames))

end Bindings

namespace Resolver

/-- Resolving reads nothing of a table but what it finds there and its size. -/
theorem apply_congr (overrides : Bindings) {table table' : Bindings}
    (hfind : ∀ name, table.find? name = table'.find? name) (hsize : table.size = table'.size)
    (t : Text) : apply ⟨overrides, table⟩ t = apply ⟨overrides, table'⟩ t := by
  have hpass : ∀ t, pass ⟨overrides, table⟩ t = pass ⟨overrides, table'⟩ t := by
    intro t
    simp only [pass, funext hfind]
  have hrepeat : ∀ rounds t,
      repeatPass ⟨overrides, table⟩ rounds t = repeatPass ⟨overrides, table'⟩ rounds t := by
    intro rounds
    induction rounds with
    | zero => exact fun t ↦ rfl
    | succ rounds ih =>
      intro t
      rw [repeatPass, repeatPass, hpass, ih]
  simp only [apply, hpass, hrepeat, hsize]

end Resolver

/-- The variables of a document may be declared in any order. -/
theorem Document.apply_bindings_of_perm {doc doc' : Document}
    (h : doc.declarations.Perm doc'.declarations) (hnames : (doc.declarations.map Prod.fst).Nodup)
    (overrides : Bindings) (t : Text) :
    Resolver.apply ⟨overrides, doc.bindings⟩ t = Resolver.apply ⟨overrides, doc'.bindings⟩ t := by
  have hperm : doc.bindings.entries.Perm doc'.bindings.entries :=
    Bindings.perm_insertAll Bindings.builtin h hnames
  have hnodup : (doc.bindings.entries.map Prod.fst).Nodup :=
    Bindings.nodup_insertAll (by decide) _
  have hfind : ∀ name, doc.bindings.find? name = doc'.bindings.find? name :=
    Bindings.lookup_eq_of_perm hperm hnodup
  have hsize : doc.bindings.size = doc'.bindings.size := hperm.length_eq
  exact Resolver.apply_congr overrides hfind hsize t

/-! ## Declarations leave no trace -/

theorem declaration?_eq_some {t name value : Text} (h : declaration? t = some (name, value)) :
    t.head? = some '$' ∧ Text.endsWith t '{' = false := by
  unfold declaration? at h
  split at h
  · next hhead =>
    refine ⟨hhead, ?_⟩
    split at h
    · cases h
    · next before rest hsplit =>
      dsimp only at h
      split at h
      · cases h
      · obtain ⟨inner, hinner, -⟩ := Option.map_eq_some_iff.mp h
        have htrim := Text.before?_eq_some_iff.mp hinner
        have ht := (Text.splitAt?_eq_some_iff.mp hsplit).1
        apply Bool.eq_false_iff.mpr
        intro hends
        rcases List.eq_nil_or_concat rest with rfl | ⟨front, c, rfl⟩
        · simp [Text.trim, Text.trimStart, Text.trimEnd] at htrim
        · obtain ⟨start, hstart⟩ := Text.endsWith_iff.mp hends
          have hlast : before ++ ':' :: front ++ [c] = start ++ ['{'] := by
            rw [← hstart, ht]
            simp
          obtain rfl : c = '{' := by simpa using List.append_inj_right' hlast rfl
          rw [List.concat_eq_append, Text.trim_append_singleton _ (by decide)] at htrim
          exact absurd (List.append_inj_right' htrim rfl) (by decide)
  · cases h

/-- Leaves the declarations of variables out. -/
def Omission.declarations : Omission where
  omits t kind := kind = .generic && (declaration? t).isSome
  not_opens := by
    intro t kind h
    obtain ⟨⟨name, value⟩, hvalue⟩ := Option.isSome_iff_exists.mp (Bool.and_eq_true_iff.mp h).2
    exact (declaration?_eq_some hvalue).2
  not_closes := by
    rintro t kind h rfl
    obtain ⟨⟨name, value⟩, hvalue⟩ := Option.isSome_iff_exists.mp (Bool.and_eq_true_iff.mp h).2
    have hhead := (declaration?_eq_some hvalue).1
    revert hhead
    decide

theorem Omission.drops_declarations (n : Node) :
    Omission.declarations.drops n = n.declaration?.isSome := by
  unfold Omission.drops Omission.declarations Node.declaration?
  by_cases hkind : n.kind = .generic <;> simp [hkind]

theorem Classification.isTextMarker_dollar (tail : Text) : isTextMarker ('$' :: tail) = false :=
  rfl

theorem Omission.silent_declarations : Omission.declarations.Silent := by
  intro n h
  obtain ⟨hkind, hdeclares⟩ := Bool.and_eq_true_iff.mp h
  obtain ⟨⟨name, value⟩, hvalue⟩ := Option.isSome_iff_exists.mp hdeclares
  obtain ⟨tail, htail⟩ := List.head?_eq_some_iff.mp (declaration?_eq_some hvalue).1
  refine ⟨of_decide_eq_true hkind, ?_, ?_⟩
  · rw [Node.isBlockClose, htail, beq_eq_false_iff_ne]
    intro hclose
    have hhead := Text.head?_trim_cons (by decide : Text.isBlank '$' = false) tail
    rw [hclose] at hhead
    exact absurd hhead (by decide)
  · rw [htail]
    exact Classification.isTextMarker_dollar tail

theorem Document.isHidden_of_declaration {doc : Document} (i : NodeId) (n : Node)
    (hn : doc.suppressDeclarations.get? i = some n)
    (h : Omission.declarations.drops n = true) : Stylesheet.isHidden n = true := by
  rw [get?_suppressDeclarations] at hn
  obtain ⟨m, -, rfl⟩ := Option.map_eq_some_iff.mp hn
  split at h
  · next hdeclares =>
    rw [if_pos hdeclares]
    rfl
  · next hdeclares =>
    rw [Omission.drops_declarations] at h
    exact absurd h hdeclares

/-! ## Moving -/

theorem Scope.classify_of_declaration (scope : Scope) {t name value : Text}
    (h : declaration? t = some (name, value)) : scope.classify t = .generic := by
  obtain ⟨tail, rfl⟩ := List.head?_eq_some_iff.mp (declaration?_eq_some h).1
  unfold Scope.classify
  rw [Classification.element?_cons (by decide), Classification.isTextMarker_dollar]
  simp [Classification.attribute?, Text.after?]

namespace Builder

/-- A declaration outside every value is taken in, and changes nothing but the variables. -/
theorem twins_of_declaration {front : List Statement} {a : Builder}
    (hfront : ({} : Builder).takeAll front = some a) (hname : a.openName = none) {d : Statement}
    {name value : Text} (hd : declaration? d.text = some (name, value)) :
    a.refuses d = false ∧ Twins .declarations (a.takeIn d) a ∧
      (a.takeIn d).doc.declarations = a.doc.declarations ++ [(name, value)] := by
  obtain ⟨hhead, hopens⟩ := declaration?_eq_some hd
  obtain ⟨tail, htail⟩ := List.head?_eq_some_iff.mp hhead
  have hcomment : d.isComment = false := by
    rw [Statement.isComment, htail]
    rfl
  have hcloses : d.closes = false := by
    simp [Statement.closes, htail]
  have hkind : a.kindOf d = .generic := by
    simp [kindOf, hname, Scope.classify_of_declaration _ hd, Classification.toKind,
      NodeKind.awaitValue]
  obtain ⟨a', ha', htwins, -⟩ := (twins_empty .declarations).takeAll rfl hfront
  obtain rfl : a' = a := Option.some.inj (ha'.symm.trans hfront)
  refine ⟨by simp [refuses, hcloses], htwins.takeIn_left ?_ ?_, ?_⟩
  · simp [Omission.declarations, hkind, hd]
  · rw [openName_takeIn _ hcomment, hname, hkind]
    rfl
  · rw [htwins.left.declarations_takeIn, declared, hcomment, hkind, hd]
    rfl

section Insert

variable {front back : List Statement} {d : Statement} {name value : Text}
  (hclosed : ∀ a, ({} : Builder).takeAll front = some a → a.openName = none)
  (hd : declaration? d.text = some (name, value))
include hclosed hd

theorem exists_takeAll_without {c : Builder}
    (hc : ({} : Builder).takeAll (front ++ d :: back) = some c) :
    ∃ e, ({} : Builder).takeAll (front ++ back) = some e ∧ Twins .declarations c e ∧
      c.doc.declarations.Perm ((name, value) :: e.doc.declarations) := by
  rw [takeAll_append] at hc ⊢
  obtain ⟨a, ha, hc⟩ := Option.bind_eq_some_iff.mp hc
  obtain ⟨hrefuses, htwins, hdeclares⟩ := twins_of_declaration ha (hclosed a ha) hd
  rw [takeAll_cons hrefuses] at hc
  obtain ⟨e, he, hce, more, hmore, hmore'⟩ := htwins.takeAll rfl hc
  refine ⟨e, by rw [ha, Option.bind_some, he], hce, ?_⟩
  rw [hmore, hmore', hdeclares, List.append_assoc]
  exact List.perm_middle

theorem exists_takeAll_with {e : Builder}
    (he : ({} : Builder).takeAll (front ++ back) = some e) :
    ∃ c, ({} : Builder).takeAll (front ++ d :: back) = some c ∧ Twins .declarations c e ∧
      c.doc.declarations.Perm ((name, value) :: e.doc.declarations) := by
  rw [takeAll_append] at he ⊢
  obtain ⟨a, ha, he⟩ := Option.bind_eq_some_iff.mp he
  obtain ⟨hrefuses, htwins, hdeclares⟩ := twins_of_declaration ha (hclosed a ha) hd
  obtain ⟨c, hc, hec, more, hmore, hmore'⟩ := htwins.symm.takeAll rfl he
  refine ⟨c, ?_, hec.symm, ?_⟩
  · rw [ha, Option.bind_some, takeAll_cons hrefuses, hc]
  · rw [hmore, hmore', hdeclares, List.append_assoc]
    exact List.perm_middle

end Insert

theorem openName_eq_none {settings : Settings} {base : Path} {statements : List Statement}
    (hordinary : ∀ s ∈ statements, s.IsOrdinary)
    (h : ∀ b, feed settings { base } {} statements = .ok b → b.openAttribute = none) {a : Builder}
    (ha : ({} : Builder).takeAll statements = some a) : a.openName = none := by
  rw [openName, h a ((feed_eq_ok_iff hordinary).mpr ha), Option.map_none]

end Builder

/-- A declaration may be moved to any place outside a value, as long as no other declares the same
variable: the document is accepted there too, and both its renderings stay the same. The lines on
which the statements stand may change. -/
theorem Document.outputs_of_moved_declaration {settings : Settings} {base : Path}
    {front back : List Statement} {d : Statement} {name value : Text} {doc : Document}
    (hordinary : ∀ s ∈ front ++ d :: back, s.IsOrdinary)
    (hdoc : Document.ofStatements settings base (front ++ d :: back) = .ok doc)
    (hnames : (doc.declarations.map Prod.fst).Nodup)
    (hd : declaration? d.text = some (name, value))
    (hclosed : ∀ b, Builder.feed settings { base } {} front = .ok b → b.openAttribute = none)
    (front' back' : List Statement) (d' : Statement) (hd' : d'.text = d.text)
    (hothers : (front' ++ back').map Statement.text = (front ++ back).map Statement.text)
    (hclosed' : ∀ b, Builder.feed settings { base } {} front' = .ok b → b.openAttribute = none) :
    ∃ doc', Document.ofStatements settings base (front' ++ d' :: back') = .ok doc' ∧
      ∀ overrides : Bindings,
        (∀ html, Markup.render ⟨overrides, doc.bindings⟩ doc.suppressDeclarations = .ok html ↔
          Markup.render ⟨overrides, doc'.bindings⟩ doc'.suppressDeclarations = .ok html) ∧
        ∀ css, Stylesheet.render ⟨overrides, doc.bindings⟩ doc.suppressDeclarations = .ok css ↔
          Stylesheet.render ⟨overrides, doc'.bindings⟩ doc'.suppressDeclarations = .ok css := by
  have hordinary' : ∀ s ∈ front' ++ d' :: back', s.IsOrdinary := by
    intro s hs
    rw [List.mem_append, List.mem_cons] at hs
    have hmoved : s = d' ∨ s ∈ front' ++ back' := by
      rw [List.mem_append]
      tauto
    rcases hmoved with rfl | hs
    · exact (hordinary d (by simp)).of_text hd'
    · have htext : s.text ∈ (front ++ back).map Statement.text := by
        rw [← hothers]
        exact List.mem_map_of_mem hs
      obtain ⟨s₀, hs₀, heq⟩ := List.mem_map.mp htext
      refine (hordinary s₀ ?_).of_text heq.symm
      rw [List.mem_append] at hs₀
      exact List.mem_append.mpr (hs₀.imp_right (List.mem_cons_of_mem d))
  obtain ⟨c, hc, hname, hscopes, rfl⟩ := (Document.ofStatements_eq_ok_iff hordinary).mp hdoc
  -- The declaration is taken out, and put in again elsewhere.
  obtain ⟨e, he, hce, hperm⟩ := Builder.exists_takeAll_without
    (fun a ha ↦ Builder.openName_eq_none
      (fun s hs ↦ hordinary s (List.mem_append_left _ hs)) hclosed ha) hd hc
  obtain ⟨e', he', hee', more, hmore, hmore'⟩ :=
    (Builder.twins_empty .declarations).takeAll hothers he
  obtain ⟨c', hc', hce', hperm'⟩ := Builder.exists_takeAll_with
    (fun a ha ↦ Builder.openName_eq_none
      (fun s hs ↦ hordinary' s (List.mem_append_left _ hs)) hclosed' ha)
    (hd' ▸ hd : declaration? d'.text = some (name, value)) he'
  have hdeclared : c.doc.declarations.Perm c'.doc.declarations := by
    refine hperm.trans (List.Perm.trans ?_ hperm'.symm)
    rw [hmore, hmore']
  have houtline := hce.outlineAll_forest.trans
    (hee'.outlineAll_forest.trans hce'.symm.outlineAll_forest)
  refine ⟨c'.doc, (Document.ofStatements_eq_ok_iff hordinary').mpr ⟨c', hc', ?_, ?_, rfl⟩, ?_⟩
  · rw [hce'.symm.openName_eq, hee'.openName_eq, hce.openName_eq, hname]
  · exact hce'.symm.scopes_eq_nil (hee'.scopes_eq_nil (hce.scopes_eq_nil hscopes))
  · intro overrides
    have hresolve := Document.apply_bindings_of_perm hdeclared hnames overrides
    refine ⟨Except.eq_ok_iff_of_toOption ?_, Except.eq_ok_iff_of_toOption ?_⟩
    · exact Markup.toOption_render_eq hresolve Omission.silent_declarations houtline
    · exact Stylesheet.toOption_render_eq hresolve Document.isHidden_of_declaration
        Document.isHidden_of_declaration houtline

theorem Document.outputs_of_moved_declaration_last :
    ∃ doc doc', Document.ofStatements ⟨(Library.ofList []).load, 32⟩ ⟨[]⟩
        ([⟨"div \x7b".toList, 1⟩] ++ ⟨"$x: 4px;".toList, 2⟩ ::
          [⟨"--id: \"$x\";".toList, 3⟩, ⟨"$y: $x;".toList, 4⟩, ⟨"width: $y;".toList, 5⟩,
            ⟨"\x7d".toList, 6⟩]) = .ok doc ∧
      Document.ofStatements ⟨(Library.ofList []).load, 32⟩ ⟨[]⟩
        ([⟨"div \x7b".toList, 1⟩, ⟨"--id: \"$x\";".toList, 2⟩, ⟨"$y: $x;".toList, 3⟩,
          ⟨"width: $y;".toList, 4⟩, ⟨"\x7d".toList, 5⟩] ++ ⟨"$x: 4px;".toList, 6⟩ :: []) =
        .ok doc' ∧
      Markup.render ⟨{}, doc'.bindings⟩ doc'.suppressDeclarations =
        .ok (joinLines ["<div id=\"4px\">".toList, "</div>".toList]) ∧
      Stylesheet.render ⟨{}, doc'.bindings⟩ doc'.suppressDeclarations =
        .ok (joinLines ["div \x7b".toList, "    width: 4px;".toList, "\x7d".toList]) := by
  obtain ⟨doc, hdoc, hnames, hhtml, hcss⟩ :
      ∃ doc, Document.ofStatements ⟨(Library.ofList []).load, 32⟩ ⟨[]⟩
        ([⟨"div \x7b".toList, 1⟩] ++ ⟨"$x: 4px;".toList, 2⟩ ::
          [⟨"--id: \"$x\";".toList, 3⟩, ⟨"$y: $x;".toList, 4⟩, ⟨"width: $y;".toList, 5⟩,
            ⟨"\x7d".toList, 6⟩]) = .ok doc ∧
      (doc.declarations.map Prod.fst).Nodup ∧
      Markup.render ⟨{}, doc.bindings⟩ doc.suppressDeclarations =
        .ok (joinLines ["<div id=\"4px\">".toList, "</div>".toList]) ∧
      Stylesheet.render ⟨{}, doc.bindings⟩ doc.suppressDeclarations =
        .ok (joinLines ["div \x7b".toList, "    width: 4px;".toList, "\x7d".toList]) := by
    refine ⟨?_, ?_, ?_⟩
    rotate_left
    · simp only [Document.ofStatements, List.cons_append, List.nil_append]
      rw [Builder.feed_next rfl, Builder.feed_next rfl, Builder.feed_next rfl,
        Builder.feed_next rfl, Builder.feed_next rfl, Builder.feed_next rfl, Builder.feed_nil]
      rfl
    · decide +kernel
  obtain ⟨doc', hdoc', hsame⟩ := Document.outputs_of_moved_declaration (by decide) hdoc hnames
    rfl (by
      intro b hb
      rw [Builder.feed_next rfl, Builder.feed_nil] at hb
      rw [← Except.ok.inj hb]
      rfl)
    [⟨"div \x7b".toList, 1⟩, ⟨"--id: \"$x\";".toList, 2⟩, ⟨"$y: $x;".toList, 3⟩,
      ⟨"width: $y;".toList, 4⟩, ⟨"\x7d".toList, 5⟩] [] ⟨"$x: 4px;".toList, 6⟩ rfl rfl (by
      intro b hb
      rw [Builder.feed_next rfl, Builder.feed_next rfl, Builder.feed_next rfl,
        Builder.feed_next rfl, Builder.feed_next rfl, Builder.feed_nil] at hb
      rw [← Except.ok.inj hb]
      rfl)
  exact ⟨doc, doc', hdoc, hdoc', ((hsame {}).1 _).mp hhtml, ((hsame {}).2 _).mp hcss⟩

end StyledMarkup
