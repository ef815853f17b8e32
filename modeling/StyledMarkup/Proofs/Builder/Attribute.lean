import Mathlib
import StyledMarkup.Proofs.Builder.Feed

/-!
# The value of an open attribute

A declaration without a value opens an attribute. From then on every statement but a comment is a
piece of its value, whatever it would be otherwise: each becomes one more attribute node of the same
name in the same block, and nothing else changes. The piece that ends in a quote and a semicolon
closes the attribute. A closing brace, or the end of the statements, cannot come before it.
-/

namespace StyledMarkup

/-! ## Pieces of a value -/

/-- Where pieces of an attribute are classified as that attribute, the value is what follows the
colon. -/
theorem Scope.Continues.classify_eq {scope : Scope} {name : Text} (h : scope.Continues name)
    (piece : Text) :
    scope.classify ("--".toList ++ name ++ ": ".toList ++ piece) =
      .attribute name (Value.unescape (Value.extract (' ' :: piece)))
        (Vocabulary.isEvent name) := by
  obtain ⟨value, isEvent, hclass⟩ := h piece
  obtain ⟨name', blanks, value', htext, -, hblanks, -, hattr⟩ :=
    Classification.attribute?_eq_some (Scope.classify_eq_attribute hclass).2
  obtain ⟨rfl, -, -⟩ := Classification.attribute.inj hattr
  have hrest : ':' :: ' ' :: piece = blanks ++ ':' :: value' := by
    have hcancel : name ++ ':' :: ' ' :: piece = name ++ (blanks ++ ':' :: value') := by
      simpa using htext
    exact List.append_cancel_left hcancel
  cases blanks with
  | nil =>
    obtain rfl : ' ' :: piece = value' := by simpa using hrest
    rw [hclass, hattr]
  | cons c blanks =>
    obtain ⟨rfl, -⟩ := List.cons.inj hrest
    exact absurd (hblanks ':' List.mem_cons_self) (by decide)

namespace Builder

/-- The statement leaves an open attribute open. -/
def keepsOpen (s : Statement) : Bool :=
  s.isComment || !(s.closes || endsValue s)

/-- What a statement adds to the value of the open attribute. -/
def pieceValue (s : Statement) : Text :=
  Value.unescape (Value.extract (' ' :: s.text))

def pieceKind (name : Text) (s : Statement) : NodeKind :=
  .attribute name (pieceValue s) (Vocabulary.isEvent name) false

/-- The builder with these statements as pieces of the value of an attribute: each of them but the
comments is one more attribute node in the innermost open block. -/
def collect (b : Builder) (name : Text) (expanded : Bool) (pieces : List Statement) : Builder :=
  { b with
    doc := (pieces.filter fun s ↦ !s.isComment).foldl
      (fun doc s ↦ doc.graft b.scopes.head? s (pieceKind name s) false expanded) b.doc }

section Collect

variable (b : Builder) (name : Text) (expanded : Bool) {s : Statement} (pieces : List Statement)

theorem collect_comment (hcomment : s.isComment = true) :
    b.collect name expanded (s :: pieces) = b.collect name expanded pieces := by
  simp [collect, hcomment]

theorem collect_piece (hcomment : s.isComment = false) :
    b.collect name expanded (s :: pieces) =
      (b.collect name expanded [s]).collect name expanded pieces := by
  simp [collect, hcomment]

theorem collect_append (more : List Statement) :
    b.collect name expanded (pieces ++ more) =
      (b.collect name expanded pieces).collect name expanded more := by
  simp [collect, List.filter_append, List.foldl_append]

end Collect

section Step

variable (settings : Settings) (ctx : Context) {b : Builder} {s : Statement} {a : OpenAttribute}

/-- A statement that is fed while an attribute is open becomes a piece of its value. -/
theorem step_piece (hb : b.Attentive) (hopen : b.openAttribute = some a)
    (hcomment : s.isComment = false) (hcloses : s.closes = false) :
    b.step settings ctx s = .ok (.next { b.collect a.name ctx.isExpanding [s] with
      openAttribute := if endsValue s then none else some a }) := by
  have hkind : (b.scope.classify ("--".toList ++ a.name ++ ": ".toList ++ s.text)).toKind =
      pieceKind a.name s := by
    rw [(hb a hopen).classify_eq]
    rfl
  have hvalue : b.continueValue a s ctx.isExpanding =
      { b.collect a.name ctx.isExpanding [s] with
        openAttribute := if endsValue s then none else some a } := by
    rw [continueValue, hkind]
    simp only [collect, hcomment, Bool.not_false, List.filter_cons_of_pos, List.filter_nil,
      List.foldl_cons, List.foldl_nil]
    split
    · rfl
    · rw [← hopen]
      rfl
  rw [step, if_neg (by simp [hcomment]), hopen]
  dsimp only
  rw [if_neg (by simp [hcloses]), hvalue]

theorem step_closes (hopen : b.openAttribute = some a) (hcloses : s.closes = true) :
    b.step settings ctx s = .error a.error := by
  have htext : s.text = ['}'] := by simpa [Statement.closes] using hcloses
  have hcomment : s.isComment = false := by
    rw [Statement.isComment, htext]
    decide
  rw [step, if_neg (by simp [hcomment]), hopen]
  dsimp only
  rw [if_pos hcloses]

end Step

/-! ## The opening -/

/-- The attribute was opened by a declaration in the innermost open block. -/
def Announces (b : Builder) (a : OpenAttribute) : Prop :=
  ∃ j n, b.doc.get? j = some n ∧ n.parent = b.scopes.head? ∧ n.raw = a.text ∧ n.line = a.line ∧
    n.kind = .attribute a.name [] (Vocabulary.isEvent a.name) true

theorem Announces.graft {b b' : Builder} {a : OpenAttribute} (h : b.Announces a)
    (hlt : ∀ p, b.scopes.head? = some p → p < b.doc.size) {s : Statement} {kind : NodeKind}
    {suppressed expanded : Bool} (hscopes : b'.scopes = b.scopes)
    (hdoc : b'.doc = b.doc.graft b.scopes.head? s kind suppressed expanded) : b'.Announces a := by
  obtain ⟨j, n, hget, hparent, hraw, hline, hkind⟩ := h
  have hne : j ≠ b.doc.size := Nat.ne_of_lt (Document.lt_size_of_get? hget)
  have hmap := Document.map_get?_graft b.doc s kind suppressed expanded
    (f := fun n ↦ (n.parent, n.raw, n.line, n.kind))
    (by intro n i asAttribute; cases asAttribute <;> rfl) hlt j
  rw [if_neg hne, hget, ← hdoc] at hmap
  obtain ⟨n', hget', heq⟩ := Option.map_eq_some_iff.mp hmap
  obtain ⟨hparent', hraw', hline', hkind'⟩ : n'.parent = n.parent ∧ n'.raw = n.raw ∧
      n'.line = n.line ∧ n'.kind = n.kind := by simpa using heq
  rw [← hscopes] at hparent
  exact ⟨j, n', hget', hparent'.trans hparent, hraw'.trans hraw, hline'.trans hline,
    hkind'.trans hkind⟩

theorem kind_of_opened? {scope : Scope} {s : Statement} {a : OpenAttribute}
    (h : opened? (scope.classify s.text).toKind.awaitValue s = some a) :
    (scope.classify s.text).toKind.awaitValue =
      .attribute a.name [] (Vocabulary.isEvent a.name) true ∧
        a.text = s.text ∧ a.line = s.line := by
  obtain ⟨isEvent, hclass⟩ := opened?_eq_some h
  obtain ⟨name, blanks, value, -, -, -, -, hattr⟩ :=
    Classification.attribute?_eq_some (Scope.classify_eq_attribute hclass).2
  obtain ⟨rfl, -, rfl⟩ := Classification.attribute.inj hattr
  rw [hclass] at h ⊢
  have ha : a = ⟨a.name, s.line, s.text⟩ := by
    simpa [opened?, Classification.toKind, NodeKind.awaitValue] using h.symm
  refine ⟨rfl, ?_, ?_⟩ <;> rw [ha]

/-- A statement that opens an attribute opens no block. -/
theorem plain_of_opened {b : Builder} {s : Statement} (hs : s.IsShaped) {a : OpenAttribute}
    (hopened : opened? (b.scope.classify s.text).toKind.awaitValue s = some a) (expanded : Bool) :
    b.plain s expanded =
      { b with
        doc := b.doc.graft b.scopes.head? s (.attribute a.name [] (Vocabulary.isEvent a.name) true)
          false expanded
        openAttribute := some a } := by
  obtain ⟨hkind, -, -⟩ := kind_of_opened? hopened
  have hopens : s.opens = false := by
    by_contra hopens
    rw [opened?_eq_none_of_opens hs (Bool.of_not_eq_false hopens)] at hopened
    cases hopened
  have hcloses : s.closes = false := by
    by_contra hcloses
    have hbrace : s.text = ['}'] := by simpa [Statement.closes] using hcloses
    rw [hbrace, Scope.classify_closing] at hkind
    cases hkind
  rw [plain, if_neg (by simp [hopens]), if_neg (by simp [hcloses]), hopened, hkind]
  rfl

theorem announces_plain {b : Builder} {s : Statement} (hb : b.Sound) (hs : s.IsShaped)
    (expanded : Bool) {a : OpenAttribute} (hopen : (b.plain s expanded).openAttribute = some a) :
    (b.plain s expanded).Announces a := by
  rw [openAttribute_plain] at hopen
  obtain ⟨-, htext, hline⟩ := kind_of_opened? hopen
  rw [plain_of_opened hs hopen]
  refine ⟨b.doc.size, b.doc.leaf b.scopes.head? s
    (.attribute a.name [] (Vocabulary.isEvent a.name) true) false expanded, ?_, rfl, htext.symm,
    hline.symm, rfl⟩
  rw [Document.get?_graft b.doc s _ false expanded hb.head?_lt, if_pos rfl]

/-- Every rule keeps the opening of the open attribute. -/
theorem Taken.announces {settings : Settings} {ctx : Context} {b : Builder} {s : Statement}
    {role : Role} {r : Step} (h : Taken settings ctx b s role r) (hb : b.Sound) (hs : s.IsShaped)
    (hold : ∀ a, b.openAttribute = some a → b.Announces a) :
    ∀ a, r.builder.openAttribute = some a → r.builder.Announces a := by
  intro a ha
  cases h with
  | comment => exact hold a ha
  | piece a' hopen hcloses =>
    have ha : b.openAttribute = some a := by
      by_cases hends : endsValue s = true
      · rw [Step.builder, openAttribute_continueValue, if_pos hends] at ha
        cases ha
      · rwa [Step.builder, openAttribute_continueValue, if_neg hends] at ha
    exact (hold a ha).graft hb.head?_lt (scopes_continueValue b a' s _) (doc_continueValue b a' s _)
  | importFile _ _ _ _ hopen | mixin _ hopen | unknown _ hopen | expand _ _ _ hopen =>
    exact absurd (hopen.symm.trans ha) (by simp)
  | plain role hopen => exact announces_plain hb hs ctx.isExpanding ha

end Builder

/-! ## Runs while an attribute is open -/

section Run

variable {settings : Settings} {base : Path} {source : Text} {m : Moment}

theorem Moment.Sound.announces (h : m.Sound settings) {m' : Moment} (hmoves : Moves settings m m')
    (hold : ∀ a, m.builder.openAttribute = some a → m.builder.Announces a) :
    ∀ a, m'.builder.openAttribute = some a → m'.builder.Announces a := by
  cases hmoves with
  | next hstep =>
    exact (Builder.taken_of_step hstep).announces h.builder_sound
      (h.rest_shaped _ List.mem_cons_self) hold
  | nested hstep =>
    exact (Builder.taken_of_step hstep).announces h.builder_sound
      (h.rest_shaped _ List.mem_cons_self) hold
  | settle hsettle =>
    obtain ⟨rfl, -, -⟩ := Builder.settle_eq_ok hsettle
    exact hold

theorem Reachable.announces (h : Reachable settings base source m) :
    ∀ a, m.builder.openAttribute = some a → m.builder.Announces a := by
  obtain ⟨statements, hscan, hruns⟩ := h
  have hstart : (Moment.start base statements).Sound settings :=
    Moment.sound_start (Statement.isShaped_of_scan hscan)
  induction hruns with
  | refl => simp [Moment.start]
  | tail hruns hmoves ih => exact (hstart.runs hruns).announces hmoves ih

/-- Statements that leave the attribute open are taken in as pieces of its value, one after
another. -/
theorem Moment.Sound.runs_collect {b : Builder} {ctx : Context} {front rest : List Statement}
    {callers : List Caller} {log : List Fed} {a : OpenAttribute}
    (h : Moment.Sound settings ⟨b, ctx, front ++ rest, callers, log⟩)
    (hopen : b.openAttribute = some a) (hfront : ∀ s ∈ front, Builder.keepsOpen s = true) :
    ∃ log', Runs settings ⟨b, ctx, front ++ rest, callers, log⟩
      ⟨b.collect a.name ctx.isExpanding front, ctx, rest, callers, log'⟩ := by
  induction front generalizing b log with
  | nil => exact ⟨log, .refl⟩
  | cons s front ih =>
    rw [List.forall_mem_cons] at hfront
    obtain ⟨hs, hfront⟩ := hfront
    by_cases hcomment : s.isComment = true
    · have hstep : b.step settings ctx s = .ok (.next b) := by rw [Builder.step, if_pos hcomment]
      obtain ⟨log', hruns⟩ := ih (h.moves (.next hstep)) hopen hfront
      rw [Builder.collect_comment b a.name ctx.isExpanding front hcomment]
      exact ⟨log', hruns.head (.next hstep)⟩
    · have hcomment : s.isComment = false := Bool.of_not_eq_true hcomment
      obtain ⟨hcloses, hends⟩ : s.closes = false ∧ Builder.endsValue s = false := by
        simpa [Builder.keepsOpen, hcomment] using hs
      have hstep := Builder.step_piece settings ctx h.builder_sound.attentive hopen hcomment hcloses
      have hkept : ({ b.collect a.name ctx.isExpanding [s] with
          openAttribute := if Builder.endsValue s then none else some a } : Builder) =
            b.collect a.name ctx.isExpanding [s] := by
        rw [hends, ← hopen]
        rfl
      rw [hkept] at hstep
      obtain ⟨log', hruns⟩ := ih (h.moves (.next hstep)) hopen hfront
      rw [Builder.collect_piece b a.name ctx.isExpanding front hcomment]
      exact ⟨log', hruns.head (.next hstep)⟩

/-- The attribute cannot stay open: neither a closing brace nor the end of the statements may come
before the end of its value. -/
theorem Reachable.parse_of_openAttribute (h : Reachable settings base source m) {a : OpenAttribute}
    (hopen : m.builder.openAttribute = some a)
    (hrest : ∀ s more, m.rest = s :: more → s.closes = true) :
    Document.parse settings base source = .error a.error := by
  obtain ⟨b, ctx, rest, callers, log⟩ := m
  dsimp only at hopen hrest
  cases rest with
  | cons s more =>
    exact h.parse_of_fails (.statement (Builder.step_closes settings ctx hopen (hrest s more rfl)))
  | nil =>
    cases callers with
    | nil =>
      rw [h.parse_of_finished ⟨rfl, rfl⟩, Builder.finish]
      simp only [hopen]
    | cons caller callers =>
      refine h.parse_of_fails (.settle ?_)
      rw [Builder.settle]
      simp only [hopen]

/-- While an attribute is open, the run goes through the statements up to the end of its value, each
but the comments one more node of that attribute in the block of its declaration, and changes
nothing else. The end of the value closes the attribute. When a closing brace or the end of the
statements comes first, the source is rejected with the declaration of the attribute. -/
theorem course_of_openAttribute (h : Reachable settings base source m) {a : OpenAttribute}
    (hopen : m.builder.openAttribute = some a) :
    m.builder.Announces a ∧ ∀ front rest, m.rest = front ++ rest →
      (∀ s ∈ front, Builder.keepsOpen s = true) →
      (∃ log, Runs settings m
        ⟨m.builder.collect a.name m.ctx.isExpanding front, m.ctx, rest, m.callers, log⟩) ∧
      (∀ s more, rest = s :: more → s.isComment = false → s.closes = false →
        Builder.endsValue s = true →
        ∃ log, Runs settings m
          ⟨{ m.builder.collect a.name m.ctx.isExpanding (front ++ [s]) with openAttribute := none },
            m.ctx, more, m.callers, log⟩) ∧
      ((∀ s more, rest = s :: more → s.closes = true) →
        Document.parse settings base source =
          .error ⟨.unterminatedAttribute a.name, a.line, a.text⟩) := by
  refine ⟨h.announces a hopen, ?_⟩
  intro front rest hrest hfront
  obtain ⟨b, ctx, rest', callers, log⟩ := m
  dsimp only at hopen hrest ⊢
  subst hrest
  obtain ⟨log', hruns⟩ := h.sound.runs_collect hopen hfront
  have hreach := h.runs hruns
  refine ⟨⟨log', hruns⟩, ?_, ?_⟩
  · rintro s more rfl hcomment hcloses hends
    have hstep := Builder.step_piece settings ctx hreach.sound.builder_sound.attentive hopen
      hcomment hcloses
    rw [if_pos hends, ← Builder.collect_append] at hstep
    exact ⟨_, hruns.tail (.next hstep)⟩
  · exact fun hrest ↦ hreach.parse_of_openAttribute hopen hrest

end Run

theorem course_of_openAttribute_cut_off :
    ∃ m, Reachable ⟨fun _ ↦ .error "", 0⟩ ⟨[]⟩
        "p \x7b\n--title:\n@import 'x';\n// \";\nq \x7b\n\x7d".toList m ∧
      m.builder.openAttribute = some ⟨"title".toList, 2, "--title:".toList⟩ ∧
      Document.parse ⟨fun _ ↦ .error "", 0⟩ ⟨[]⟩
          "p \x7b\n--title:\n@import 'x';\n// \";\nq \x7b\n\x7d".toList =
        .error ⟨.unterminatedAttribute "title".toList, 2, "--title:".toList⟩ := by
  have hscan : Statement.scan "p \x7b\n--title:\n@import 'x';\n// \";\nq \x7b\n\x7d".toList =
      .ok [⟨"p \x7b".toList, 1⟩, ⟨"--title:".toList, 2⟩, ⟨"@import 'x';".toList, 3⟩,
        ⟨"// \";".toList, 4⟩, ⟨"q \x7b".toList, 5⟩, ⟨"\x7d".toList, 6⟩] := by
    cbv
  obtain ⟨m, hm, hopen, hrest⟩ : ∃ m, Reachable ⟨fun _ ↦ .error "", 0⟩ ⟨[]⟩
      "p \x7b\n--title:\n@import 'x';\n// \";\nq \x7b\n\x7d".toList m ∧
      m.builder.openAttribute = some ⟨"title".toList, 2, "--title:".toList⟩ ∧
      m.rest = [⟨"@import 'x';".toList, 3⟩, ⟨"// \";".toList, 4⟩, ⟨"q \x7b".toList, 5⟩] ++
        [⟨"\x7d".toList, 6⟩] :=
    ⟨_, ⟨_, hscan, .head (.next rfl) (.head (.next rfl) .refl)⟩, rfl, rfl⟩
  have hparse := ((course_of_openAttribute hm hopen).2 _ _ hrest (by decide)).2.2
  exact ⟨m, hm, hopen, hparse (by rintro s more ⟨⟩; rfl)⟩

end StyledMarkup
