import StyledMarkup.Proofs.Builder.Echo
import StyledMarkup.Proofs.Builder.Splice
import StyledMarkup.Proofs.Statement.Tidy
import StyledMarkup.Proofs.Variable

/-!
# Compiling a stylesheet

The lines of a stylesheet are statements of the source, put one on a line and indented. Compiled as
a source, they are cut apart at the same places, because in a source without apostrophes only the
last statement can leave a parenthesis open. What was left out of the stylesheet is gone, and what
an include gave stands in its place, but every statement still meets the same innermost block. So
the stylesheet is its own stylesheet, as long as its statements end by themselves.
-/

namespace StyledMarkup

/-! ## Texts that name nothing -/

/-- The text mentions no variable, has no apostrophe and asks for no file. -/
structure Text.IsBare (t : Text) : Prop where
  dollar : '$' ∉ t
  apostrophe : '\'' ∉ t
  no_import : ¬ Directive.importKeyword <:+: t

theorem Text.isLocal_isBare : Text.IsLocal Text.IsBare where
  part hpart ht := ⟨(isLocal_not_mem (by decide)).part hpart ht.dollar,
    (isLocal_not_mem (by decide)).part hpart ht.apostrophe,
    (isLocal_not_isInfix (by decide)).part hpart ht.no_import⟩
  join ht hu := ⟨(isLocal_not_mem (by decide)).join ht.dollar hu.dollar,
    (isLocal_not_mem (by decide)).join ht.apostrophe hu.apostrophe,
    (isLocal_not_isInfix (by decide)).join ht.no_import hu.no_import⟩

/-- A statement that can be fed again from a line of its own. -/
structure Statement.IsFit (s : Statement) : Prop where
  shaped : s.IsShaped
  bare : s.text.IsBare
  newline : '\n' ∉ s.text
  tidy : s.IsTidy

/-- The statement of the node can be fed again. One that leaves a parenthesis open can only be a
root with no line in the stylesheet. -/
structure Node.IsFit (n : Node) : Prop where
  bare : n.raw.IsBare
  newline : '\n' ∉ n.raw
  tidy : Statement.commentMarker.isPrefixOf n.raw = false ∧ Scan.IsTidy n.raw ∨
    n.parent = none ∧ Stylesheet.isHidden n = true

def Document.IsFit (doc : Document) : Prop :=
  ∀ j n, doc.get? j = some n → n.IsFit

theorem Document.IsFit.graft {doc : Document} (h : doc.IsFit) {parent : Option NodeId}
    (hparent : ∀ p, parent = some p → p < doc.size) {s : Statement} {kind : NodeKind}
    {suppressed expanded : Bool} (hnew : (doc.leaf parent s kind suppressed expanded).IsFit) :
    (doc.graft parent s kind suppressed expanded).IsFit := by
  refine doc.forall_graft s kind suppressed expanded (P := fun _ n ↦ n.IsFit) ?_ hparent h hnew
  rintro j n id asAttribute ⟨hbare, hnewline, htidy⟩
  cases asAttribute <;> exact ⟨hbare, hnewline, htidy⟩

/-! ## Feeding fit statements -/

namespace Builder

variable {settings : Settings} {ctx : Context} {b : Builder} {s : Statement} {r : Step}

theorem isComment_of_addsNode (h : (b.roleOf s).addsNode = true) : s.isComment = false := by
  cases hcomment : s.isComment with
  | false => rfl
  | true => simp [roleOf, hcomment, Role.addsNode] at h

theorem isFit_step (hb : b.Sound) (hfit : b.doc.IsFit) (hs : s.IsFit)
    (h : b.step settings ctx s = .ok r) : r.builder.doc.IsFit := by
  rcases ((taken_of_step h).intake hs.shaped hb.attentive).doc_cases with
    ⟨-, hdoc⟩ | ⟨hadds, kind, suppressed, hdoc, -⟩
  · rwa [hdoc]
  · have hcomment := isComment_of_addsNode hadds
    rw [hdoc]
    refine hfit.graft hb.head?_lt ⟨hs.bare, hs.newline, Or.inl ⟨hcomment, ?_⟩⟩
    exact hs.tidy.resolve_left (by simp [hcomment])

/-- The body of a mixin is made of nodes that have a parent. -/
theorem isFit_of_mem_body (hb : b.Sound) (hfit : b.doc.IsFit) {m : Mixin} {n : Node}
    (hn : n ∈ m.body b.doc) : n.raw.IsBare ∧ '\n' ∉ n.raw ∧ n.raw.IsTrimmed ∧
      Statement.commentMarker.isPrefixOf n.raw = false ∧ Scan.IsTidy n.raw := by
  simp only [Mixin.body, List.mem_mergeSort, List.mem_filter, List.mem_filterMap] at hn
  obtain ⟨⟨j, ⟨hj, -⟩, hget⟩, -⟩ := hn
  have hbelow := hb.doc_sound.linked.coherent.mem_descendants.mp hj
  have hparent : n.parent ≠ none := by
    intro hnone
    obtain ⟨p, -, hp⟩ := Relation.TransGen.tail'_iff.mp hbelow
    simp [Document.parent?, hget, hnone] at hp
  obtain ⟨hbare, hnewline, htidy⟩ := hfit j n hget
  have htidy := htidy.resolve_right fun hroot ↦ hparent hroot.1
  exact ⟨hbare, hnewline, hb.doc_sound.trimmed j n hget, htidy⟩

theorem isFit_of_nested {inner : Context} {b' : Builder} {body : List Statement} (hb : b'.Sound)
    (hfit : b'.doc.IsFit) (hs : s.text.IsBare)
    (h : b.step settings ctx s = .ok (.nested inner b' body)) : ∀ t ∈ body, t.IsFit := by
  have htaken := taken_of_step h
  generalize b.roleOf s = role at htaken
  cases htaken with
  | importFile target path source body hopen htarget hpath hdepth hcycle hload hscan =>
    simp only [Directive.importTarget?, Option.bind_eq_bind, Option.bind_eq_some_iff] at htarget
    obtain ⟨rest, hrest, -⟩ := htarget
    have htext := Text.after?_eq_some_iff.mp hrest
    exact absurd (htext ▸ List.infix_append' [] _ rest) hs.no_import
  | expand request m body hopen hrequest hfind hactive hscan =>
    have hlines : ∀ l ∈ m.expand (b.add s .generic true ctx.isExpanding).doc
        (Directive.resolveParams m.params request.args),
        (l.2.IsBare ∧ '\n' ∉ l.2) ∧ l.2.IsTrimmed ∧
          Statement.commentMarker.isPrefixOf l.2 = false ∧ Scan.IsTidy l.2 := by
      intro l hl
      obtain ⟨n, hn, rfl⟩ := List.mem_map.mp hl
      obtain ⟨hbare, hnewline, hrest⟩ := isFit_of_mem_body hb hfit hn
      simp only [Token.substitute_of_not_mem _ hbare.dollar]
      exact ⟨⟨hbare, hnewline⟩, hrest⟩
    have hlocal := Text.isLocal_isBare.and (Text.isLocal_not_mem (c := '\n') (by decide))
    have hbare := Statement.forall_of_scanLines hlocal (fun l hl ↦ (hlines l hl).1) hscan
    have htidy := Statement.isTidy_of_scanLines
      (fun l hl ↦ ⟨(hlines l hl).1.1.apostrophe, (hlines l hl).2⟩) hscan
    intro t ht
    exact ⟨Statement.isShaped_of_scanLines hscan t ht, (hbare t ht).1, (hbare t ht).2, htidy t ht⟩

theorem isFit_of_feed {b' : Builder} {statements : List Statement} (hb : b.Sound)
    (hfit : b.doc.IsFit) (hstatements : ∀ s ∈ statements, s.IsFit)
    (h : b.feed settings ctx statements = .ok b') : b'.Sound ∧ b'.doc.IsFit := by
  refine feed_keeps (I := fun b ↦ b.Sound ∧ b.doc.IsFit) (P := Statement.IsFit) ?_ ⟨hb, hfit⟩
    hstatements h
  rintro ctx b s r ⟨hb, hfit⟩ hs hstep
  have hb' := hb.step hs.shaped hstep
  have hfit' := isFit_step hb hfit hs hstep
  refine ⟨⟨hb', hfit'⟩, ?_⟩
  rintro inner b' body rfl
  exact isFit_of_nested hb' hfit' hs.bare hstep

end Builder

/-! ## The last statement -/

/-- Only the last row of the stylesheet may leave a parenthesis open. -/
structure Document.Rescannable (doc : Document) : Prop where
  bare : ∀ j n, doc.get? j = some n → n.raw.IsBare ∧ '\n' ∉ n.raw
  rows : ∃ (front : List Text) (last : Option Text),
    (Stylesheet.rows doc).map Prod.snd = front ++ last.toList ∧ (∀ t ∈ front, Scan.IsTidy t) ∧
      ∀ t ∈ last, ∃ m, Scan.Mode.read false t {} = some m ∧ m.quote = none

theorem Document.exists_of_mem_rows {doc : Document} {t : Text}
    (h : t ∈ (Stylesheet.rows doc).map Prod.snd) :
    ∃ j ∈ Stylesheet.shown doc, ∃ n, doc.get? j = some n ∧ n.raw = t := by
  simp only [Stylesheet.rows, List.map_map, List.mem_map, Function.comp_apply] at h
  obtain ⟨j, hj, rfl⟩ := h
  have hlt : j < doc.size := by
    simp only [Stylesheet.shown, List.mem_filter, List.mem_range] at hj
    exact hj.1
  obtain ⟨n, hn⟩ := Document.exists_get? hlt
  exact ⟨j, hj, n, hn, by simp [Document.row, hn]⟩

theorem Document.IsFit.isTidy {doc : Document} (h : doc.IsFit) {t : Text}
    (ht : t ∈ (Stylesheet.rows doc).map Prod.snd) : Scan.IsTidy t := by
  obtain ⟨j, hj, n, hn, rfl⟩ := Document.exists_of_mem_rows ht
  have hshown := Stylesheet.not_hidden_of_isShown (List.mem_filter.mp hj).2
  rw [Document.has_of_get? hn] at hshown
  exact ((h j n hn).tidy.resolve_right (by simp [hshown])).2

theorem Document.IsFit.rescannable {doc : Document} (h : doc.IsFit) : doc.Rescannable where
  bare j n hn := ⟨(h j n hn).bare, (h j n hn).newline⟩
  rows := ⟨_, none, (List.append_nil _).symm, fun t ht ↦ h.isTidy ht, by simp⟩

namespace Builder

variable {settings : Settings} {ctx : Context} {b b' : Builder} {s : Statement}

/-- A last statement that leaves a parenthesis open stands outside all blocks. -/
theorem rescannable_of_last (hb : b.Sound) (hfit : b.doc.IsFit) (hs : s.IsShaped)
    (hbare : s.text.IsBare) (hnewline : '\n' ∉ s.text)
    (hread : ∃ m, Scan.Mode.read false s.text {} = some m ∧ m.quote = none)
    (h : b.feed settings ctx [s] = .ok b') (hscopes : b'.scopes = []) : b'.doc.Rescannable := by
  obtain ⟨r, hstep, hr⟩ := feed_singleton h
  -- a node outside all blocks that is left out
  have hhidden : b.scopes = [] → ∀ {b₁ : Builder} {kind suppressed expanded},
      b₁.doc = b.doc.graft b.scopes.head? s kind suppressed expanded →
      Stylesheet.isHidden (b.doc.leaf b.scopes.head? s kind suppressed expanded) = true →
      b₁.doc.IsFit := by
    intro hnil b₁ kind suppressed expanded hdoc hhidden
    rw [hdoc]
    refine hfit.graft hb.head?_lt ⟨hbare, hnewline, Or.inr ⟨?_, hhidden⟩⟩
    simp [Document.leaf, hnil]
  rcases hr with ⟨rfl, -⟩ | ⟨inner, b₁, body, rfl, hbody, hsettle⟩
  · cases (taken_of_step hstep).shows hb.attentive with
    | same hdoc => exact Document.IsFit.rescannable (hdoc ▸ hfit)
    | hidden kind suppressed hdoc hleaf hkept =>
      have hnil : b.scopes = [] := by
        rcases hkept with hkept | hkept
        · rw [← hkept, hscopes]
        · simp [hkept] at hscopes
      exact (hhidden hnil hdoc hleaf).rescannable
    | shown hordinary hcomment hdoc hleaf hkept =>
      refine ⟨?_, ?_⟩
      · rw [hdoc]
        refine b.doc.forall_graft s _ _ _ (P := fun _ n ↦ n.raw.IsBare ∧ '\n' ∉ n.raw) ?_
          hb.head?_lt (fun j n hn ↦ ⟨(hfit j n hn).bare, (hfit j n hn).newline⟩) ⟨hbare, hnewline⟩
        rintro j n id asAttribute hn
        cases asAttribute <;> exact hn
      · rw [hdoc, Stylesheet.rows_graft hb.doc_sound.linked hb.head?_lt]
        split
        · exact ⟨_, some s.text, by simp, fun t ht ↦ hfit.isTidy ht, by simpa using hread⟩
        · exact ⟨_, none, by simp, fun t ht ↦ hfit.isTidy ht, by simp⟩
  · obtain ⟨hheight, hdoc⟩ := nested_cases hstep
    obtain ⟨-, -, hfloor⟩ := settle_eq_ok hsettle
    have hnil : b.scopes = [] := by
      rw [← List.length_eq_zero_iff, ← hheight, ← hfloor, hscopes]
      rfl
    have hb₁ : b₁.Sound := hb.step hs hstep
    have hfit₁ : b₁.doc.IsFit := by
      rcases hdoc with hdoc | hdoc
      · rwa [hdoc]
      · exact hhidden hnil hdoc rfl
    exact (isFit_of_feed hb₁ hfit₁ (isFit_of_nested hb₁ hfit₁ hbare hstep) hbody).2.rescannable

end Builder

theorem Text.IsBare.of_mem_numbered {source : Text} (h : source.IsBare) :
    ∀ l ∈ ((Text.lines source).zipIdx 1).map Prod.swap, l.2.IsBare ∧ '\n' ∉ l.2 := by
  intro l hl
  obtain ⟨l', hl', rfl⟩ := List.mem_map.mp hl
  have hmem := List.fst_mem_of_mem_zipIdx hl'
  exact ⟨Text.isLocal_isBare.part (Text.isInfix_of_mem_lines hmem) h,
    Text.newline_not_mem_of_mem_lines hmem⟩

theorem Document.rescannable_of_parse {settings : Settings} {base : Path} {source : Text}
    {doc : Document} (hsource : source.IsBare) (h : Document.parse settings base source = .ok doc) :
    doc.Rescannable := by
  rw [Document.parse] at h
  split at h
  · cases h
  · next statements hscan =>
    rw [Document.ofStatements] at h
    split at h
    · cases h
    · next b hfeed =>
      have hlines := hsource.of_mem_numbered
      have hlocal := Text.isLocal_isBare.and (Text.isLocal_not_mem (c := '\n') (by decide))
      have hbare := Statement.forall_of_scanLines hlocal hlines hscan
      have hshaped := Statement.isShaped_of_scan hscan
      obtain ⟨hsound, -⟩ := Builder.exists_echo_of_feed hshaped hfeed
      obtain ⟨rfl, hscopes⟩ := hsound.finish_eq_ok h
      obtain ⟨front, last, rfl, htidy, hlast⟩ :=
        Statement.exists_of_scanLines (fun l hl ↦ (hlines l hl).1.apostrophe) hscan
      rw [List.forall_mem_append] at hbare hshaped
      obtain ⟨b₀, hfront, hfeed⟩ := Builder.exists_feed_of_append hfeed
      obtain ⟨hb₀, hfit⟩ := Builder.isFit_of_feed Builder.sound_empty
        (fun j n hn ↦ by simp [Document.get?] at hn)
        (fun s hs ↦ ⟨hshaped.1 s hs, (hbare.1 s hs).1, (hbare.1 s hs).2, htidy s hs⟩) hfront
      cases last with
      | none =>
        rw [Option.toList_none, Builder.feed_nil] at hfeed
        cases hfeed
        exact hfit.rescannable
      | some s =>
        have hs : s ∈ (some s).toList := by simp
        exact Builder.rescannable_of_last hb₀ hfit (hshaped.2 s hs) (hbare.2 s hs).1
          (hbare.2 s hs).2 (hlast s rfl) hfeed hscopes

/-! ## The lines of a stylesheet -/

namespace Stylesheet

/-- The line of a row. -/
def rowLine (row : Nat × Text) : Text :=
  indent (if row.2 = ['}'] then row.1 - 1 else row.1) row.2

theorem trim_rowLine {row : Nat × Text} (h : row.2.IsTrimmed) :
    Text.trim (rowLine row) = row.2 := by
  refine h.trim_of_pads ⟨_, [], ?_, rfl, (List.append_nil _).symm⟩
  have hspace : Text.isBlank ' ' = true := by decide
  simp [Text.allBlank, hspace]

theorem lineAt_eq_rowLine {doc : Document} (r : Resolver) {j : NodeId} {n : Node}
    (hn : doc.get? j = some n) (htrimmed : n.raw.IsTrimmed) (hdollar : '$' ∉ n.raw) :
    lineAt r doc j = rowLine (doc.row j) := by
  have hclose : n.isBlockClose = decide (n.raw = ['}']) := by
    rw [Node.isBlockClose, htrimmed.trim_eq, beq_eq_decide]
  have hrow : doc.row j = (doc.depth j, n.raw) := by simp [Document.row, hn]
  simp only [lineAt, hn, level, Document.has_of_get? hn, hclose, rowLine, hrow,
    r.apply_of_not_mem hdollar, decide_eq_true_eq]
  split
  · next hbrace => rw [hbrace]
  · rfl

theorem suppressDeclarations_eq {doc : Document} (h : ∀ j n, doc.get? j = some n → '$' ∉ n.raw) :
    doc.suppressDeclarations = doc := by
  have hnodes : ∀ n ∈ doc.nodes, n.declaration? = none := by
    intro n hn
    obtain ⟨j, hj, rfl⟩ := Array.mem_iff_getElem.mp hn
    have hdollar := h j _ (Array.getElem?_eq_getElem hj)
    have hhead : (doc.nodes[j]).raw.head? ≠ some '$' := fun hhead ↦
      hdollar (List.mem_of_head? hhead)
    simp [Node.declaration?, declaration?, hhead]
  have hmap : (doc.nodes.map fun n ↦
      if n.declaration?.isSome then { n with suppressed := true } else n) = doc.nodes := by
    conv_rhs => rw [← Array.map_id doc.nodes]
    exact Array.map_congr_left fun n hn ↦ by simp [hnodes n hn]
  rw [Document.suppressDeclarations, hmap]

theorem render_eq_rows {settings : Settings} {base : Path} {source : Text} {doc : Document}
    (h : Document.parse settings base source = .ok doc)
    (hdollar : ∀ j n, doc.get? j = some n → '$' ∉ n.raw) (r : Resolver) :
    render r doc = .ok (joinLines ((rows doc).map rowLine)) := by
  have horderly := Document.orderly_of_parse h
  rw [suppressDeclarations_eq hdollar] at horderly
  have hlinked := horderly.linked
  have hlines : ∀ j ∈ shown doc, lineAt r doc j = rowLine (doc.row j) := by
    intro j hj
    have hlt : j < doc.size := by
      simp only [shown, List.mem_filter, List.mem_range] at hj
      exact hj.1
    obtain ⟨n, hn⟩ := Document.exists_get? hlt
    exact lineAt_eq_rowLine r hn (horderly.trimmed j n hn) (hdollar j n hn)
  have hemit : emitAll r 0 doc.forest = .ok ((shown doc).map (lineAt r doc)) := by
    rw [shown_eq_flatMap hlinked horderly.nested, Document.forest]
    refine emitAll_eq_flatMap r fun i hi t ht ↦ ?_
    rw [← Document.depth_of_root (hlinked.mem_roots.mp hi).2]
    exact emit_eq_map r hlinked ht (by simp [horderly.renderable.root i hi])
  rw [render, hemit, List.map_congr_left hlines, rows, List.map_map]
  rfl

theorem isLine_rowLine {row : Nat × Text} (h : row.2.IsTrimmed) (hne : row.2 ≠ [])
    (hnewline : '\n' ∉ row.2) : (rowLine row).IsLine ∧ rowLine row ≠ [] := by
  refine ⟨⟨?_, ?_⟩, ?_⟩
  · simp [rowLine, indent, hnewline, List.mem_replicate]
  · intro hreturn
    rw [rowLine, indent, List.getLast?_append_of_ne_nil _ hne] at hreturn
    exact absurd (h.2 '\r' hreturn) (by decide)
  · simp [rowLine, indent, hne]

/-- Each line of a stylesheet is scanned as the statement it was made from. -/
theorem scan_joinLines {rows : List (Nat × Text)} {front : List Text} {last : Option Text}
    (hrows : rows.map Prod.snd = front ++ last.toList)
    (hfront : ∀ t ∈ front, Scan.Completes false t)
    (hlast : ∀ t ∈ last, ∃ m, Scan.Mode.read false t {} = some m ∧ m.quote = none)
    (htexts : ∀ row ∈ rows, row.2.IsTrimmed ∧ row.2 ≠ [] ∧ '\n' ∉ row.2 ∧
      Statement.commentMarker.isPrefixOf row.2 = false) :
    Statement.scan (joinLines (rows.map rowLine)) =
      .ok (Statement.ofLines (rows.map Prod.snd)) := by
  have hlines : Text.lines (joinLines (rows.map rowLine)) = rows.map rowLine := by
    refine Text.lines_joinLines fun t ht ↦ ?_
    obtain ⟨row, hrow, rfl⟩ := List.mem_map.mp ht
    obtain ⟨htrimmed, hne, hnewline, -⟩ := htexts row hrow
    exact isLine_rowLine htrimmed hne hnewline
  have htrim : ∀ row ∈ rows, Text.trim (rowLine row) = row.2 := fun row hrow ↦
    trim_rowLine (htexts row hrow).1
  have htexts' : (rows.map rowLine).map Text.trim = rows.map Prod.snd := by
    rw [List.map_map]
    exact List.map_congr_left htrim
  have hnumbered : ((((rows.map rowLine).zipIdx 1).map Prod.swap).map fun l ↦ Text.trim l.2) =
      rows.map Prod.snd := by
    have hcomp : (fun l : Nat × Text ↦ Text.trim l.2) ∘ Prod.swap = Text.trim ∘ Prod.fst := rfl
    rw [List.map_map, hcomp, ← List.map_map, List.zipIdx_map_fst, htexts']
  have hmem : ∀ t ∈ rows.map Prod.snd, t ≠ [] ∧ Statement.commentMarker.isPrefixOf t = false := by
    intro t ht
    obtain ⟨row, hrow, rfl⟩ := List.mem_map.mp ht
    exact ⟨(htexts row hrow).2.1, (htexts row hrow).2.2.2⟩
  rw [Statement.scan, hlines, Statement.scanLines_of_completes (hnumbered.trans hrows) hfront]
  · rw [Statement.ofLines, ← htexts', List.zipIdx_map (f := Text.trim), List.map_map, List.map_map]
    rfl
  · exact fun t ht ↦ ⟨(hmem t (hrows ▸ List.mem_append_right _ (Option.mem_toList.mpr ht))).1,
      hlast t ht⟩
  · exact fun l hl ↦ (hmem _ (hnumbered ▸ List.mem_map_of_mem hl)).2

/-- The text has a mark that ends a statement at its end. -/
def isTerminated (t : Text) : Bool :=
  t.endsWith ';' || t.endsWith '{' || t == ['}']

theorem completes_of_isTidy {t : Text} (h : Scan.IsTidy t) (hends : isTerminated t = true) :
    Scan.Completes false t := by
  have hends : t.endsWith ';' = true ∨ t.endsWith '{' = true ∨ t = ['}'] := by
    simpa [isTerminated, or_assoc] using hends
  cases h with
  | completes h => exact h
  | @settled m hread hquote hdepth =>
    have hopen : ∀ {u : Text} {c : Char}, (c = ';' ∨ c = '{') → t ≠ u ++ [c] := by
      rintro u c hc rfl
      rcases Scan.Mode.open_of_concat hc hread with hopen | hopen
      · exact hopen hquote
      · exact hopen hdepth
    rcases hends with hend | hend | rfl
    · obtain ⟨u, hu⟩ := Text.endsWith_iff.mp hend
      exact absurd hu (hopen (Or.inl rfl))
    · obtain ⟨u, hu⟩ := Text.endsWith_iff.mp hend
      exact absurd hu (hopen (Or.inr rfl))
    · exact .closer

end Stylesheet

namespace Builder

theorem forall_of_takeAll {P : Text → Prop} {b b' : Builder} {statements : List Statement}
    (hb : b.Housed) (hold : ∀ j n, b.doc.get? j = some n → P n.raw)
    (hstatements : ∀ s ∈ statements, P s.text) (h : b.takeAll statements = some b') :
    ∀ j n, b'.doc.get? j = some n → P n.raw := by
  induction statements generalizing b with
  | nil =>
    cases h
    exact hold
  | cons s rest ih =>
    rw [List.forall_mem_cons] at hstatements
    refine ih (hb.takeIn s) ?_ hstatements.2 (takeAll_cons_eq_some h).2
    cases hcomment : s.isComment with
    | true => simpa [takeIn, hcomment] using hold
    | false =>
      rw [doc_takeIn b hcomment]
      refine b.doc.forall_graft s _ _ _ (P := fun _ n ↦ P n.raw) ?_ hb.head?_lt hold hstatements.1
      rintro j n id asAttribute hn
      cases asAttribute <;> exact hn

end Builder

/-! ## Compiling again -/

section Again

variable {settings : Settings} {base : Path} {source : Text} {doc : Document}
  (hparse : Document.parse settings base source = .ok doc) (h : doc.Rescannable)
  (hends : ∀ t ∈ (Stylesheet.rows doc).map Prod.snd, Stylesheet.isTerminated t = true)
include hparse h hends

theorem Stylesheet.scan_rows :
    Statement.scan (joinLines ((rows doc).map rowLine)) =
      .ok (Statement.ofLines ((rows doc).map Prod.snd)) := by
  obtain ⟨b, hsound, rfl, -⟩ := exists_sound_of_parse hparse
  obtain ⟨-, -, -, -, -, hordinary⟩ := Document.exists_echo hparse
  obtain ⟨hbare, front, last, hrows, htidy, hlast⟩ := h
  refine scan_joinLines hrows ?_ hlast ?_
  · exact fun t ht ↦ completes_of_isTidy (htidy t ht)
      (hends t (hrows ▸ List.mem_append_left _ ht))
  · intro row hrow
    have hmem := List.mem_map_of_mem (f := Prod.snd) hrow
    obtain ⟨j, hj, n, hn, hraw⟩ := Document.exists_of_mem_rows hmem
    refine ⟨hraw ▸ hsound.doc_sound.trimmed j n hn, ?_, hraw ▸ (hbare j n hn).2,
      (hordinary _ hmem 0).2⟩
    intro hnil
    have hends := hends _ hmem
    simp [hnil, isTerminated, Text.endsWith] at hends

/-- The lines of the stylesheet are parsed to a document with the same lines. -/
theorem Document.exists_parse_rows (settings' : Settings) (base' : Path) :
    ∃ doc', Document.parse settings' base'
        (joinLines ((Stylesheet.rows doc).map Stylesheet.rowLine)) = .ok doc' ∧
      Stylesheet.rows doc' = Stylesheet.rows doc ∧
      ∀ j n, doc'.get? j = some n → '$' ∉ n.raw := by
  obtain ⟨small, hfed, hname, hscopes, hsame, hordinary⟩ := Document.exists_echo hparse
  have hlines : ∀ s ∈ Statement.ofLines ((Stylesheet.rows doc).map Prod.snd),
      s.IsOrdinary ∧ '$' ∉ s.text := by
    intro s hs
    obtain ⟨l, hl, rfl⟩ := List.mem_map.mp hs
    have hmem := List.fst_mem_of_mem_zipIdx hl
    obtain ⟨j, -, n, hn, hraw⟩ := Document.exists_of_mem_rows hmem
    exact ⟨(hordinary _ hmem _).1, by simpa [hraw] using (h.bare j n hn).1.dollar⟩
  refine ⟨small.doc, ?_, hsame, ?_⟩
  · rw [Document.parse, Stylesheet.scan_rows hparse h hends]
    exact (Document.ofStatements_eq_ok_iff fun s hs ↦ (hlines s hs).1).mpr
      ⟨small, hfed, hname, hscopes, rfl⟩
  · exact Builder.forall_of_takeAll (P := ('$' ∉ ·)) Builder.housed_empty (by simp [Document.get?])
      (fun s hs ↦ (hlines s hs).2) hfed

end Again

namespace Compile

theorem exists_both_of_parse {load : Loader} (options : Options) {base : Path} {source : Text}
    {doc : Document} (h : Document.parse ⟨load, options.maxImportDepth⟩ base source = .ok doc)
    (hdollar : ∀ j n, doc.get? j = some n → '$' ∉ n.raw) :
    ∃ out, both load options base source = .ok out ∧
      out.css = joinLines ((Stylesheet.rows doc).map Stylesheet.rowLine) := by
  rcases outcome load options base source with ⟨e, herror, -⟩ | ⟨doc₁, out, hparse, hboth, -, hcss⟩
  · rw [h] at herror
    cases herror
  · obtain rfl : doc₁ = doc := Except.ok.inj (hparse.symm.trans h)
    refine ⟨out, hboth, ?_⟩
    have hrender := Stylesheet.render_eq_rows h hdollar ⟨options.overrides, doc₁.bindings⟩
    simp only [css, prepare, h, Stylesheet.suppressDeclarations_eq hdollar, bind, Except.bind,
      hrender, Except.mapError, Except.ok.injEq] at hcss
    exact hcss.symm

/-- A stylesheet whose statements end by themselves is its own stylesheet, if its source mentions no
variable, has no apostrophe and imports nothing. -/
theorem css_of_css {load : Loader} {base : Path} {source : Text} {out : Output}
    (hdollar : '$' ∉ source) (hapostrophe : '\'' ∉ source)
    (himport : ¬ "@import".toList <:+: source) (h : both load {} base source = .ok out)
    (hends : ∀ doc, Document.parse ⟨load, ({} : Options).maxImportDepth⟩ base source = .ok doc →
      ∀ j ∈ Stylesheet.shown doc.suppressDeclarations,
        doc.suppressDeclarations.has (fun n ↦ Stylesheet.isTerminated n.raw) j = true)
    (load' : Loader) (base' : Path) :
    ∃ out', both load' {} base' out.css = .ok out' ∧ out'.css = out.css := by
  rcases outcome load {} base source with ⟨e, -, herror, -⟩ | ⟨doc, -, hparse, -⟩
  · rw [h] at herror
    cases herror
  have hrescannable := Document.rescannable_of_parse ⟨hdollar, hapostrophe, himport⟩ hparse
  have hplain : ∀ j n, doc.get? j = some n → '$' ∉ n.raw :=
    fun j n hn ↦ (hrescannable.bare j n hn).1.dollar
  have hends := hends doc hparse
  rw [Stylesheet.suppressDeclarations_eq hplain] at hends
  have hterminated : ∀ t ∈ (Stylesheet.rows doc).map Prod.snd,
      Stylesheet.isTerminated t = true := by
    intro t ht
    obtain ⟨j, hj, n, hn, rfl⟩ := Document.exists_of_mem_rows ht
    have hend := hends j hj
    rwa [Document.has_of_get? hn] at hend
  obtain ⟨out₁, hboth, hcss⟩ := exists_both_of_parse {} hparse hplain
  obtain rfl : out₁ = out := Except.ok.inj (hboth.symm.trans h)
  obtain ⟨doc', hparse', hrows, hplain'⟩ := Document.exists_parse_rows hparse hrescannable
    hterminated ⟨load', ({} : Options).maxImportDepth⟩ base'
  obtain ⟨out', hboth', hcss'⟩ := exists_both_of_parse {} (hcss ▸ hparse') hplain'
  exact ⟨out', hboth', by rw [hcss', hcss, hrows]⟩

theorem css_of_css_nested :
    ∃ out, both (Library.ofList []).load {} ⟨[]⟩
      "@mixin m() \x7b \x7d // note\ndiv \x7b\n--id: \"x\";\n.c\n\x7b d: (e;\n) f; \x7d \x7d".toList
        = .ok out ∧
      out.css = "div \x7b\n    .c \x7b\n        d: (e; ) f;\n    \x7d\n\x7d".toList ∧
      ∃ out', both (Library.ofList []).load {} ⟨[]⟩ out.css = .ok out' ∧ out'.css = out.css := by
  have hscan : Statement.scan
      "@mixin m() \x7b \x7d // note\ndiv \x7b\n--id: \"x\";\n.c\n\x7b d: (e;\n) f; \x7d \x7d".toList
      = .ok [⟨"@mixin m() \x7b".toList, 1⟩, ⟨"\x7d".toList, 1⟩, ⟨"// note".toList, 1⟩,
        ⟨"div \x7b".toList, 2⟩, ⟨"--id: \"x\";".toList, 3⟩, ⟨".c \x7b".toList, 4⟩,
        ⟨"d: (e; ) f;".toList, 5⟩, ⟨"\x7d".toList, 6⟩, ⟨"\x7d".toList, 6⟩] := by
    cbv
  obtain ⟨doc, hparse, hcss, hdollar, hends⟩ : ∃ doc,
      Document.parse ⟨(Library.ofList []).load, 32⟩ ⟨[]⟩
      "@mixin m() \x7b \x7d // note\ndiv \x7b\n--id: \"x\";\n.c\n\x7b d: (e;\n) f; \x7d \x7d".toList
        = .ok doc ∧
      joinLines ((Stylesheet.rows doc).map Stylesheet.rowLine) =
        "div \x7b\n    .c \x7b\n        d: (e; ) f;\n    \x7d\n\x7d".toList ∧
      (∀ n ∈ doc.nodes.toList, '$' ∉ n.raw) ∧
      ∀ j ∈ Stylesheet.shown doc.suppressDeclarations,
        doc.suppressDeclarations.has (fun n ↦ Stylesheet.isTerminated n.raw) j = true := by
    refine ⟨?_, ?_, ?_⟩
    rotate_left
    · rw [Document.parse, hscan]
      simp only [Document.ofStatements]
      rw [Builder.feed_next rfl, Builder.feed_next rfl, Builder.feed_next rfl,
        Builder.feed_next rfl, Builder.feed_next rfl, Builder.feed_next rfl, Builder.feed_next rfl,
        Builder.feed_next rfl, Builder.feed_next rfl, Builder.feed_nil]
      rfl
    · decide +kernel
  have hplain : ∀ j n, doc.get? j = some n → '$' ∉ n.raw := fun j n hn ↦
    hdollar n (Array.mem_toList_iff.mpr (Array.mem_of_getElem? hn))
  obtain ⟨out, hboth, hout⟩ := exists_both_of_parse {} hparse hplain
  refine ⟨out, hboth, hout.trans hcss,
    css_of_css (by decide +kernel) (by decide +kernel) (by decide +kernel) hboth ?_ _ _⟩
  intro doc' hparse'
  obtain rfl : doc = doc' := Except.ok.inj (hparse.symm.trans hparse')
  exact hends

end Compile

end StyledMarkup
