import Mathlib
import StyledMarkup.Proofs.Builder.Feed
import StyledMarkup.Proofs.Path

/-!
# Imports are spliced

A context says what a feed may do: how many imports may still be put inside one another, which of
them would be a cycle, which mixins are being expanded, and which blocks may not be closed. Of all
this only the expansion leaves a mark on the nodes. So what can be fed in a context can be fed in
every context that allows more, and the builder comes out the same.

A file in the directory of its importer is fed in such a narrower context. Where its import
succeeds, its statements can stand in place of the import.
-/

namespace StyledMarkup

/-- The context `wide` allows whatever `narrow` does: imports lead to the same files and the same
mixins are being expanded, but no other imports are under way, and more blocks may be closed. -/
structure Context.Admits (wide narrow : Context) : Prop where
  base_eq : wide.base.components = narrow.base.components
  imports_subset : wide.imports ⊆ narrow.imports
  imports_le : wide.imports.length ≤ narrow.imports.length
  expansion_eq : wide.expansion = narrow.expansion
  floor_le : wide.floor ≤ narrow.floor

namespace Context.Admits

variable {wide narrow : Context} (h : wide.Admits narrow)
include h

theorem isExpanding_eq : wide.isExpanding = narrow.isExpanding := by
  rw [isExpanding, isExpanding, h.expansion_eq]

theorem active_eq : wide.active = narrow.active := by
  rw [active, active, h.expansion_eq]

theorem enterImport (path : Path) (floor : Nat) :
    (wide.enterImport path floor).Admits (narrow.enterImport path floor) where
  base_eq := rfl
  imports_subset := List.cons_subset_cons path h.imports_subset
  imports_le := Nat.succ_le_succ h.imports_le
  expansion_eq := h.expansion_eq
  floor_le := Nat.le_refl floor

theorem enterMixin (mixins : Registry) (name : Text) (floor : Nat) :
    (wide.enterMixin mixins name floor).Admits (narrow.enterMixin mixins name floor) := by
  unfold Context.enterMixin
  rw [h.expansion_eq]
  split
  · exact ⟨h.base_eq, h.imports_subset, h.imports_le, rfl, Nat.le_refl floor⟩
  · exact ⟨h.base_eq, h.imports_subset, h.imports_le, rfl, Nat.le_refl floor⟩

end Context.Admits

/-! ## One statement -/

namespace Builder

theorem isSmaller_enterImport {settings : Settings} {ctx : Context}
    (hdepth : ctx.imports.length < settings.maxImportDepth) (path : Path) (floor : Nat) :
    IsSmaller settings (ctx.enterImport path floor) ctx := by
  left
  simp only [importsLeft, Context.enterImport, List.length_cons]
  omega

/-- Whether an include is smaller depends on the expansion only. -/
theorem isSmaller_enterMixin {settings : Settings} {wide narrow : Context} (h : wide.Admits narrow)
    (mixins : Registry) (name : Text) (floor : Nat) :
    IsSmaller settings (wide.enterMixin mixins name floor) wide ↔
      IsSmaller settings (narrow.enterMixin mixins name floor) narrow := by
  have hinner := h.enterMixin mixins name floor
  have havailable : ∀ {w n : Context}, w.Admits n → w.available = n.available := by
    intro w n hwn
    rw [Context.available, Context.available, hwn.expansion_eq]
  simp only [IsSmaller, importsLeft, outside, Context.imports_enterMixin, Nat.lt_irrefl,
    hinner.isExpanding_eq, h.isExpanding_eq, havailable hinner, havailable h]

/-- Two outcomes that differ at most in the context of a nested feed. -/
inductive Step.Agrees (settings : Settings) (wide narrow : Context) : Step → Step → Prop
  | next (b : Builder) : Agrees settings wide narrow (.next b) (.next b)
  | nested {inner inner' : Context} (b : Builder) (body : List Statement)
    (hinner : inner.Admits inner') (hfloor : inner.floor = inner'.floor)
    (hsmaller : IsSmaller settings inner wide ↔ IsSmaller settings inner' narrow) :
    Agrees settings wide narrow (.nested inner b body) (.nested inner' b body)

/-- What a narrower context allows of a statement, a wider one allows too. -/
theorem step_of_admits {settings : Settings} {wide narrow : Context} (h : wide.Admits narrow)
    {b : Builder} {s : Statement} {r : Step} (hstep : b.step settings narrow s = .ok r) :
    ∃ r', b.step settings wide s = .ok r' ∧ r'.Agrees settings wide narrow r := by
  have htaken := taken_of_step hstep
  suffices hwide : ∃ r', Taken settings wide b s (b.roleOf s) r' ∧
      r'.Agrees settings wide narrow r by
    obtain ⟨r', htaken', hagrees⟩ := hwide
    exact ⟨r', step_eq_ok_iff.mpr htaken', hagrees⟩
  have hexp := h.isExpanding_eq
  generalize b.roleOf s = role at htaken ⊢
  cases htaken with
  | comment => exact ⟨_, .comment, .next b⟩
  | piece a hopen hclose =>
    refine ⟨_, .piece a hopen hclose, ?_⟩
    rw [hexp]
    exact .next _
  | importFile target path source body hopen htarget hpath hdepth hcycle hload hscan =>
    have hpath' : path = (wide.base.join ⟨target⟩).normalize :=
      hpath.trans (Path.normalize_join_congr h.base_eq ⟨target⟩).symm
    have hdepth' : wide.imports.length < settings.maxImportDepth :=
      Nat.lt_of_le_of_lt h.imports_le hdepth
    refine ⟨_, .importFile target path source body hopen htarget hpath' hdepth'
      (fun hmem ↦ hcycle (h.imports_subset hmem)) hload hscan,
      .nested b body (h.enterImport _ _) rfl ?_⟩
    exact iff_of_true (isSmaller_enterImport hdepth' _ _) (isSmaller_enterImport hdepth _ _)
  | mixin header hopen hheader =>
    refine ⟨_, .mixin header hopen hheader, ?_⟩
    rw [hexp]
    exact .next _
  | unknown request hopen hrequest hfind =>
    refine ⟨_, .unknown request hopen hrequest hfind, ?_⟩
    rw [hexp]
    exact .next _
  | expand request m body hopen hrequest hfind hactive hscan =>
    rw [← hexp] at hscan
    refine ⟨_, .expand request m body hopen hrequest hfind (h.active_eq ▸ hactive) hscan, ?_⟩
    rw [hexp]
    refine .nested _ body (h.enterMixin _ _ _) ?_ (isSmaller_enterMixin h _ _ _)
    rw [Context.floor_enterMixin, Context.floor_enterMixin]
  | plain role hopen hopens hcloses hrole hfloor =>
    refine ⟨_, .plain role hopen hopens hcloses hrole fun hclose ↦ ?_, ?_⟩
    · exact Nat.lt_of_le_of_lt h.floor_le (hfloor hclose)
    · rw [hexp]
      exact .next _

/-! ## Whole feeds -/

theorem settle_congr {ctx ctx' : Context} (hfloor : ctx.floor = ctx'.floor) (b : Builder)
    (s : Statement) : b.settle ctx s = b.settle ctx' s := by
  rw [settle, settle, hfloor]

/-- A feed that succeeds gives the same builder in every wider context. -/
theorem feed_of_admits {settings : Settings} {wide narrow : Context} (h : wide.Admits narrow)
    {b b' : Builder} {statements : List Statement}
    (hfeed : b.feed settings narrow statements = .ok b') :
    b.feed settings wide statements = .ok b' := by
  fun_induction Builder.feed settings narrow b statements generalizing wide b' with
  | case1 narrow b => exact feed_nil.trans hfeed
  | case2 | case4 | case5 => cases hfeed
  | case3 narrow b s rest b₁ hstep ih =>
    obtain ⟨r, hwide, hagrees⟩ := step_of_admits h hstep
    cases hagrees
    exact (feed_next hwide).trans (ih h hfeed)
  | case6 narrow b s rest inner b₁ body hstep hsmaller fed hbody settled hsettle ih₁ ih₂ =>
    obtain ⟨r, hwide, hagrees⟩ := step_of_admits h hstep
    cases hagrees with
    | nested _ _ hinner hfloor hsmaller' =>
      rw [feed_nested hwide (hsmaller'.mpr hsmaller) (ih₁ hinner hbody)
        ((settle_congr hfloor fed s).trans hsettle)]
      exact ih₂ h hfeed
  | case7 narrow b s rest inner b₁ body hstep hlarge ih =>
    obtain ⟨r, hwide, hagrees⟩ := step_of_admits h hstep
    cases hagrees with
    | nested _ _ hinner hfloor hsmaller' =>
      rw [feed, hwide]
      simp only [dif_neg (mt hsmaller'.mp hlarge)]
      exact ih h hfeed

theorem feed_append (settings : Settings) (ctx : Context) (b : Builder)
    (front back : List Statement) :
    b.feed settings ctx (front ++ back) =
      (b.feed settings ctx front).bind fun b' ↦ b'.feed settings ctx back := by
  fun_induction Builder.feed settings ctx b front with
  | case1 ctx b => rfl
  | case2 ctx b s rest e hstep =>
    rw [List.cons_append, feed, hstep]
    rfl
  | case3 ctx b s rest b' hstep ih => rw [List.cons_append, feed_next hstep, ih]
  | case4 ctx b s rest inner b' body hstep hsmaller e hbody ih =>
    rw [List.cons_append, feed, hstep]
    simp only [dif_pos hsmaller, hbody]
    rfl
  | case5 ctx b s rest inner b' body hstep hsmaller fed hbody e hsettle ih =>
    rw [List.cons_append, feed, hstep]
    simp only [dif_pos hsmaller, hbody, hsettle]
    rfl
  | case6 ctx b s rest inner b' body hstep hsmaller fed hbody settled hsettle ih₁ ih₂ =>
    rw [List.cons_append, feed_nested hstep hsmaller hbody hsettle, ih₂]
  | case7 ctx b s rest inner b' body hstep hlarge ih =>
    rw [List.cons_append, feed, hstep]
    simp only [dif_neg hlarge]
    exact ih

theorem exists_feed_of_append {settings : Settings} {ctx : Context} {b b' : Builder}
    {front back : List Statement} (h : b.feed settings ctx (front ++ back) = .ok b') :
    ∃ b₀, b.feed settings ctx front = .ok b₀ ∧ b₀.feed settings ctx back = .ok b' := by
  rw [feed_append] at h
  cases hfront : b.feed settings ctx front with
  | error e => simp [hfront, Except.bind] at h
  | ok b₀ => exact ⟨b₀, rfl, by simpa [hfront, Except.bind] using h⟩

/-- A nested feed that a successful feed goes through leaves its builder as it is. -/
theorem exists_feed_of_nested {settings : Settings} {ctx inner : Context} {b b₁ b' : Builder}
    {s : Statement} {rest body : List Statement}
    (hstep : b.step settings ctx s = .ok (.nested inner b₁ body))
    (hsmaller : IsSmaller settings inner ctx) (h : b.feed settings ctx (s :: rest) = .ok b') :
    ∃ fed, b₁.feed settings inner body = .ok fed ∧ fed.feed settings ctx rest = .ok b' := by
  rw [feed, hstep] at h
  simp only [dif_pos hsmaller] at h
  split at h
  · cases h
  · next fed hfed =>
    split at h
    · cases h
    · next settled hsettle =>
      obtain ⟨rfl, -, -⟩ := settle_eq_ok hsettle
      exact ⟨settled, hfed, h⟩

end Builder

theorem Directive.isImport_of_importTarget? {t target : Text} (h : importTarget? t = some target) :
    isImport t = true := by
  simp only [importTarget?, Option.bind_eq_bind, Option.bind_eq_some_iff] at h
  obtain ⟨rest, hrest, h⟩ := h
  simp only [isImport, hrest]
  -- What is read as the target stands at the front of what follows the keyword.
  have hfront : Text.trimEnd (Text.dropTail [';'] (Text.trim rest)) <+: Text.trim rest := by
    obtain ⟨blanks, hblanks, -⟩ := Text.exists_trimEnd_eq (Text.dropTail [';'] (Text.trim rest))
    apply List.IsPrefix.trans ⟨blanks, hblanks.symm⟩
    unfold Text.dropTail
    cases hbefore : Text.before? [';'] (Text.trim rest) with
    | none => exact List.prefix_refl _
    | some start => exact ⟨[';'], (Text.before?_eq_some_iff.mp hbefore).symm⟩
  split at h
  · cases h
  · next quote inner hquote =>
    rw [hquote] at hfront
    split at h
    · next hkind =>
      cases rest with
      | nil => simp [Text.trim, Text.trimStart, Text.trimEnd] at hfront
      | cons c rest =>
        by_cases hblank : Text.isBlank c = true
        · simp [hblank]
        · have hhead := Text.head?_trim_cons (Bool.of_not_eq_true hblank) rest
          obtain ⟨tail, htail⟩ := hfront
          rw [← htail] at hhead
          have hc : quote = c := Option.some.inj hhead
          rcases hkind with rfl | rfl <;> simp [← hc]
    · cases h

namespace Builder

section Import

variable {settings : Settings} {ctx : Context} {b b' : Builder} {directive : Statement}
  {rest body : List Statement} {target source : Text}
  (htarget : Directive.importTarget? directive.text = some target)
  (hload : settings.load (ctx.base.join ⟨target⟩).normalize = .ok source)
  (hscan : Statement.scan source = .ok body) (hopen : b.openAttribute = none)
include htarget hload hscan hopen

theorem step_of_import {r : Step} (hstep : b.step settings ctx directive = .ok r) :
    ctx.imports.length < settings.maxImportDepth ∧
      r = .nested (ctx.enterImport (ctx.base.join ⟨target⟩).normalize b.scopes.length) b body := by
  have himport := Directive.isImport_of_importTarget? htarget
  have hcomment : directive.isComment = false := by
    apply Bool.eq_false_iff.mpr
    intro hcomment
    obtain ⟨tail, htail⟩ := List.isPrefixOf_iff_prefix.mp hcomment
    rw [← htail] at himport
    cases himport
  have hrole : b.roleOf directive = .importFile := by
    simp [roleOf, hcomment, hopen, himport]
  have htaken := taken_of_step hstep
  rw [hrole] at htaken
  cases htaken with
  | importFile target' path source' body' _ htarget' hpath hdepth _ hload' hscan' =>
    obtain rfl : target = target' := Option.some.inj (htarget.symm.trans htarget')
    rw [hpath, hload] at hload'
    obtain rfl : source = source' := Except.ok.inj hload'
    obtain rfl : body = body' := Except.ok.inj (hscan.symm.trans hscan')
    exact ⟨hdepth, by rw [hpath]⟩
  | plain _ _ _ _ hrole => simp at hrole

/-- The statements of an imported file can be fed in place of the import, where the context admits
that of the file. -/
theorem feed_spliced
    (hadmits : ctx.Admits
      (ctx.enterImport (ctx.base.join ⟨target⟩).normalize b.scopes.length))
    (h : b.feed settings ctx (directive :: rest) = .ok b') :
    b.feed settings ctx (body ++ rest) = .ok b' := by
  cases hstep : b.step settings ctx directive with
  | error e =>
    rw [feed, hstep] at h
    cases h
  | ok r =>
    obtain ⟨hdepth, rfl⟩ := step_of_import htarget hload hscan hopen hstep
    obtain ⟨fed, hbody, hrest⟩ :=
      exists_feed_of_nested hstep (isSmaller_enterImport hdepth _ _) h
    rw [feed_append, feed_of_admits hadmits hbody]
    exact hrest

end Import

end Builder

/-- An import of a file in the directory of its importer gives what the statements of the file give
in its place. -/
theorem Document.ofStatements_splice {settings : Settings} {base : Path}
    {front back body : List Statement} {directive : Statement} {target source : Text}
    {doc : Document} (htarget : Directive.importTarget? directive.text = some target)
    (hload : settings.load (base.join ⟨target⟩).normalize = .ok source)
    (hscan : Statement.scan source = .ok body)
    (hbase : ((base.join ⟨target⟩).normalize.parent?.getD Path.empty).components = base.components)
    (hclosed : ∀ b, Builder.feed settings { base } {} front = .ok b → b.openAttribute = none)
    (h : Document.ofStatements settings base (front ++ [directive] ++ back) = .ok doc) :
    Document.ofStatements settings base (front ++ body ++ back) = .ok doc := by
  unfold Document.ofStatements at h ⊢
  rw [List.append_assoc, Builder.feed_append] at h ⊢
  cases hfront : Builder.feed settings { base } {} front with
  | error e =>
    rw [hfront] at h
    cases h
  | ok b =>
    rw [hfront] at h
    simp only [Except.bind] at h ⊢
    have hadmits : ({ base } : Context).Admits
        (({ base } : Context).enterImport (base.join ⟨target⟩).normalize b.scopes.length) :=
      ⟨hbase.symm, List.nil_subset _, Nat.zero_le _, rfl, Nat.zero_le _⟩
    cases hfeed : b.feed settings { base } ([directive] ++ back) with
    | error e =>
      rw [hfeed] at h
      cases h
    | ok b' =>
      have hspliced : b.feed settings { base } (body ++ back) = .ok b' :=
        Builder.feed_spliced htarget hload hscan (hclosed b hfront) hadmits hfeed
      rw [hfeed] at h
      rw [hspliced]
      exact h

theorem Document.ofStatements_splice_nested :
    ∃ doc, Document.ofStatements
        ⟨(Library.ofList [(⟨"lib/a".toList⟩, "p \x7b\n\x7d".toList)]).load, 32⟩ ⟨"lib/".toList⟩
        ([⟨"div \x7b".toList, 1⟩] ++ [⟨"@import 'a';".toList, 2⟩] ++ [⟨"\x7d".toList, 3⟩]) =
          .ok doc ∧
      doc.size = 4 ∧
      Document.ofStatements
        ⟨(Library.ofList [(⟨"lib/a".toList⟩, "p \x7b\n\x7d".toList)]).load, 32⟩ ⟨"lib/".toList⟩
        ([⟨"div \x7b".toList, 1⟩] ++ [⟨"p \x7b".toList, 1⟩, ⟨"\x7d".toList, 2⟩] ++
          [⟨"\x7d".toList, 3⟩]) = .ok doc := by
  have hscan : Statement.scan "p \x7b\n\x7d".toList =
      .ok [⟨"p \x7b".toList, 1⟩, ⟨"\x7d".toList, 2⟩] := by
    cbv
  have hparse : ∃ doc, Document.ofStatements
      ⟨(Library.ofList [(⟨"lib/a".toList⟩, "p \x7b\n\x7d".toList)]).load, 32⟩ ⟨"lib/".toList⟩
      ([⟨"div \x7b".toList, 1⟩] ++ [⟨"@import 'a';".toList, 2⟩] ++ [⟨"\x7d".toList, 3⟩]) = .ok doc ∧
      doc.size = 4 := by
    refine ⟨?_, ?_, ?_⟩
    rotate_left
    · simp only [Document.ofStatements, List.cons_append, List.nil_append]
      rw [Builder.feed_next rfl, Builder.feed_nested rfl (by decide)
        ((Builder.feed_next rfl).trans ((Builder.feed_next rfl).trans Builder.feed_nil)) rfl,
        Builder.feed_next rfl, Builder.feed_nil]
      rfl
    · rfl
  obtain ⟨doc, hdoc, hsize⟩ := hparse
  refine ⟨doc, hdoc, hsize, Document.ofStatements_splice rfl rfl hscan (by decide) ?_ hdoc⟩
  intro b hb
  rw [Builder.feed_next rfl, Builder.feed_nil] at hb
  rw [← Except.ok.inj hb]
  rfl

end StyledMarkup
