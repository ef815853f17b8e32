import StyledMarkup.Compile
import StyledMarkup.Proofs.Builder.Unlined

/-!
# Comments

A comment is a statement that is passed over, and the lines after it move down by one. Neither
rendering shows the lines. So a line that holds a comment can be deleted, as long as it is read as a
statement of its own and does not part an opening brace from the statement that takes it.
-/

namespace StyledMarkup

/-! ## Renderings without the lines -/

/-- Nothing is left out. -/
def Omission.nothing : Omission where
  omits _ _ := false
  not_opens := by simp
  not_closes := by simp

@[simp] theorem Omission.drops_nothing (n : Node) : Omission.nothing.drops n = false := rfl

theorem Tree.outlineAll_nothing (ts : List Tree) :
    Tree.outlineAll .nothing ts = ts.map (Tree.outline .nothing) := by
  induction ts with
  | nil => rfl
  | cons t ts ih =>
    have hspare : t.isSpare .nothing = false := Tree.not_isSpare rfl
    rw [Tree.outlineAll, hspare, ih]
    rfl

namespace Document

theorem outline_treeWithin_unlined (doc : Document) (bound : Nat) (i : NodeId) :
    (doc.unlined.treeWithin bound i).map (Tree.outline .nothing) =
      (doc.treeWithin bound i).map (Tree.outline .nothing) := by
  induction bound generalizing i with
  | zero => rfl
  | succ bound ih =>
    rw [treeWithin, treeWithin, get?_unlined, Option.map_map, Option.map_map, Option.map_map]
    refine congrArg (Option.map · (doc.get? i)) (funext fun n ↦ ?_)
    have hattrs :
        ((n.attrs.filterMap doc.unlined.get?).filter fun a ↦ !Omission.nothing.drops a).map
          Node.bare =
        ((n.attrs.filterMap doc.get?).filter fun a ↦ !Omission.nothing.drops a).map Node.bare := by
      simp only [Omission.drops_nothing, Bool.not_false, List.filter_true, List.map_filterMap,
        get?_unlined, Option.map_map]
      rfl
    have hchildren :
        Tree.outlineAll .nothing (n.children.filterMap (doc.unlined.treeWithin bound)) =
        Tree.outlineAll .nothing (n.children.filterMap (doc.treeWithin bound)) := by
      rw [Tree.outlineAll_nothing, Tree.outlineAll_nothing, List.map_filterMap, List.map_filterMap,
        funext ih]
    exact congrArg₂ (Tree.mk n.bare) hattrs hchildren

theorem outlineAll_unlined (doc : Document) :
    Tree.outlineAll .nothing doc.unlined.forest = Tree.outlineAll .nothing doc.forest := by
  rw [Tree.outlineAll_nothing, Tree.outlineAll_nothing, forest, forest, List.map_filterMap,
    List.map_filterMap, size_unlined]
  exact congrArg (List.filterMap · _) (funext (doc.outline_treeWithin_unlined doc.size))

theorem unlined_suppressDeclarations (doc : Document) :
    doc.suppressDeclarations.unlined = doc.unlined.suppressDeclarations := by
  simp only [suppressDeclarations, unlined, Array.map_map]
  refine congrArg (fun f ↦ (⟨doc.nodes.map f, doc.roots⟩ : Document)) (funext fun n ↦ ?_)
  have hdeclaration : n.unlined.declaration? = n.declaration? := rfl
  simp only [Function.comp_apply, hdeclaration]
  split <;> rfl

theorem bindings_unlined (doc : Document) : doc.unlined.bindings = doc.bindings := by
  rw [bindings, bindings, unlined, Array.toList_map, List.filterMap_map]
  rfl

end Document

/-- Comments are passed over. -/
theorem Document.ofStatements_of_comment (settings : Settings) (base : Path)
    (front back : List Statement) {comment : Statement} (h : comment.isComment = true) :
    ofStatements settings base (front ++ comment :: back) =
      ofStatements settings base (front ++ back) := by
  have hstep : ∀ b : Builder, b.step settings { base } comment = .ok (.next b) :=
    fun b ↦ if_pos h
  have hfeed : Builder.feed settings { base } {} (front ++ comment :: back) =
      Builder.feed settings { base } {} (front ++ back) := by
    rw [Builder.feed_append, Builder.feed_append]
    simp only [Builder.feed_next (hstep _)]
  rw [ofStatements, ofStatements, hfeed]

namespace Compile

/-- What a document compiles to. -/
def outputs (options : Options) (doc : Document) : Option Output := do
  let html ← (Markup.render ⟨options.overrides, doc.bindings⟩ doc.suppressDeclarations).toOption
  let css ← (Stylesheet.render ⟨options.overrides, doc.bindings⟩ doc.suppressDeclarations).toOption
  return ⟨html, css⟩

theorem outputs_unlined (options : Options) (doc : Document) :
    outputs options doc.unlined = outputs options doc := by
  have houtline : Tree.outlineAll .nothing doc.unlined.suppressDeclarations.forest =
      Tree.outlineAll .nothing doc.suppressDeclarations.forest := by
    rw [← Document.unlined_suppressDeclarations, Document.outlineAll_unlined]
  have hsilent : Omission.nothing.Silent := by simp [Omission.Silent]
  rw [outputs, outputs, Document.bindings_unlined,
    Markup.toOption_render_eq (fun _ ↦ rfl) hsilent houtline,
    Stylesheet.toOption_render_eq (fun _ ↦ rfl) (by simp) (by simp) houtline]

variable (load : Loader) (options : Options) (base : Path)

theorem toOption_both (source : Text) :
    (both load options base source).toOption =
      ((Statement.scan source).toOption.map (List.map Statement.text)).bind fun texts ↦
        (Document.ofTexts ⟨load, options.maxImportDepth⟩ base texts).bind (outputs options) := by
  have hparse := Document.toOption_parse_unlined ⟨load, options.maxImportDepth⟩ base source
  have hoption : ∀ {α : Type} (x : Except RenderError α),
      (x.mapError CompileError.render).toOption = x.toOption := by
    rintro α (e | a) <;> rfl
  rw [← Option.bind_assoc, ← hparse, both, prepare]
  cases Document.parse ⟨load, options.maxImportDepth⟩ base source with
  | error e => rfl
  | ok doc =>
    change Except.toOption (do
      let html ← (Markup.render _ doc.suppressDeclarations).mapError CompileError.render
      let css ← (Stylesheet.render _ doc.suppressDeclarations).mapError CompileError.render
      return (⟨html, css⟩ : Output)) = outputs options doc.unlined
    rw [outputs_unlined]
    simp only [Except.toOption_bind, hoption]
    rfl

variable {load options base} in
theorem toOption_both_of_feed {source : Text} {statements : List Statement} {b : Builder}
    (hscan : Statement.scan source = .ok statements)
    (hfeed : Builder.feed ⟨load, options.maxImportDepth⟩ { base } {} statements = .ok b) :
    (both load options base source).toOption = b.finish.toOption.bind (outputs options) := by
  rw [toOption_both, hscan]
  simp only [Except.toOption, Option.map_some, Option.bind_some, Document.ofTexts_eq,
    Document.ofStatements, hfeed]
  cases b.finish with
  | error e => rfl
  | ok doc => exact outputs_unlined options doc

/-- A line that holds a comment can be deleted: the source is accepted or refused as before, and
both renderings stay the same. -/
theorem both_of_comment_deleted {before after : List Text} {line source source' : Text}
    (hgap : Scan.IsGap before after)
    (hcomment : Statement.commentMarker.isPrefixOf (Text.trim line) = true)
    (hsource : Text.lines source = before ++ line :: after)
    (hsource' : Text.lines source' = before ++ after) :
    (both load options base source).toOption = (both load options base source').toOption := by
  obtain ⟨front, comment, back, hskip, htexts, htexts'⟩ :=
    Statement.exists_texts_of_comment hgap hcomment hsource hsource'
  rw [toOption_both, toOption_both, htexts, htexts']
  cases back with
  | none => rfl
  | some back =>
    simp only [Option.map_some, Option.bind_some, Document.ofTexts_eq,
      Document.ofStatements_of_comment _ base front back hskip]

/-- The comment stands in the middle of an attribute whose value is being collected. -/
theorem both_of_comment_deleted_in_value :
    Scan.IsGap ["div".toList, "\x7b".toList, "--onclick:".toList]
        ["\"f();\";".toList, "\x7d".toList] ∧
      (both (Library.ofList []).load {} ⟨[]⟩
          "div\n\x7b\n--onclick:\n  // note\n\"f();\";\n\x7d".toList).toOption =
        some ⟨"<div onclick=\"f();\">\n</div>".toList, "div \x7b\n\x7d".toList⟩ := by
  have hgap : Scan.IsGap ["div".toList, "\x7b".toList, "--onclick:".toList]
      ["\"f();\";".toList, "\x7d".toList] :=
    ⟨by decide +kernel, by decide +kernel⟩
  have hscan : Statement.scan "div\n\x7b\n--onclick:\n\"f();\";\n\x7d".toList =
      .ok [⟨"div \x7b".toList, 1⟩, ⟨"--onclick:".toList, 3⟩, ⟨"\"f();\";".toList, 4⟩,
        ⟨"\x7d".toList, 5⟩] := by
    decide +kernel
  have hlines : Text.lines "div\n\x7b\n--onclick:\n  // note\n\"f();\";\n\x7d".toList =
      ["div".toList, "\x7b".toList, "--onclick:".toList] ++ "  // note".toList ::
        ["\"f();\";".toList, "\x7d".toList] := by
    decide +kernel
  have hlines' : Text.lines "div\n\x7b\n--onclick:\n\"f();\";\n\x7d".toList =
      ["div".toList, "\x7b".toList, "--onclick:".toList] ++
        ["\"f();\";".toList, "\x7d".toList] := by
    decide +kernel
  refine ⟨hgap, (both_of_comment_deleted _ _ _ hgap (by decide) hlines hlines').trans ?_⟩
  rw [toOption_both_of_feed hscan (by
    rw [Builder.feed_next rfl, Builder.feed_next rfl, Builder.feed_next rfl, Builder.feed_next rfl,
      Builder.feed_nil])]
  decide +kernel

/-! ## Comments that are not passed over -/

/-- Where a scan of the lines before it is as required, a line that holds a comment can be
deleted. -/
def CommentsVanish (required : Scan → Prop) : Prop :=
  ∀ (load : Loader) (options : Options) (base : Path) (before after : List Text)
    (line source source' : Text), required (Scan.ofLines before) →
      Statement.commentMarker.isPrefixOf (Text.trim line) = true →
      Text.lines source = before ++ line :: after → Text.lines source' = before ++ after →
      (both load options base source).toOption = (both load options base source').toOption

/-- A comment after a declaration without its semicolon becomes a part of its value. And a comment
can keep an opening brace from the statement before it. -/
theorem not_commentsVanish :
    ¬CommentsVanish (fun s ↦ s.quote = none ∧ s.depth = 0) ∧
      ¬CommentsVanish (fun s ↦ s.pending = []) := by
  constructor
  · intro h
    have hscan : Statement.scan "color: red\n// note\n;".toList =
        .ok [⟨"color: red // note ;".toList, 1⟩] := by
      decide +kernel
    have hscan' : Statement.scan "color: red\n;".toList = .ok [⟨"color: red ;".toList, 1⟩] := by
      decide +kernel
    have heq := h (Library.ofList []).load {} ⟨[]⟩ ["color: red".toList] [";".toList]
      "// note".toList "color: red\n// note\n;".toList "color: red\n;".toList (by decide +kernel)
      (by decide) (by decide +kernel) (by decide +kernel)
    rw [toOption_both_of_feed hscan (by rw [Builder.feed_next rfl, Builder.feed_nil]),
      toOption_both_of_feed hscan' (by rw [Builder.feed_next rfl, Builder.feed_nil])] at heq
    revert heq
    decide +kernel
  · intro h
    have hscan : Statement.scan "div\n// note\n\x7b\n\x7d".toList =
        .ok [⟨"div".toList, 1⟩, ⟨"// note".toList, 2⟩, ⟨"\x7b".toList, 3⟩, ⟨"\x7d".toList, 4⟩] := by
      decide +kernel
    have hscan' : Statement.scan "div\n\x7b\n\x7d".toList =
        .ok [⟨"div \x7b".toList, 1⟩, ⟨"\x7d".toList, 3⟩] := by
      decide +kernel
    have heq := h (Library.ofList []).load {} ⟨[]⟩ ["div".toList] ["\x7b".toList, "\x7d".toList]
      "// note".toList "div\n// note\n\x7b\n\x7d".toList "div\n\x7b\n\x7d".toList
      (by decide +kernel) (by decide) (by decide +kernel) (by decide +kernel)
    rw [toOption_both_of_feed hscan (by
        rw [Builder.feed_next rfl, Builder.feed_next rfl, Builder.feed_next rfl,
          Builder.feed_next rfl, Builder.feed_nil]),
      toOption_both_of_feed hscan' (by
        rw [Builder.feed_next rfl, Builder.feed_next rfl, Builder.feed_nil])] at heq
    revert heq
    decide +kernel

end Compile

end StyledMarkup
