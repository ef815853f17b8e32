import StyledMarkup.Builder.Feed
import StyledMarkup.Proofs.Classification
import StyledMarkup.Proofs.Document.Links

/-!
# What one statement does

`Builder.Taken` lists the rules by which a statement is taken in, with all their conditions. What a
rule does to the builder is one of four things, which `Builder.Intake` lists: nothing, a new node, a
new node that is opened as a block, or a new closing brace that closes the innermost block.
-/

namespace StyledMarkup

/-- What a fed statement is taken for. -/
inductive Role where
  | comment
  /-- A piece of the value of the open attribute. -/
  | piece
  /-- A request for a file. -/
  | importFile
  /-- The opening of a mixin. -/
  | mixin
  /-- A request for a mixin. -/
  | includeMixin
  /-- Any other statement that opens a block. -/
  | opener
  /-- A closing brace. -/
  | closer
  | plain
  deriving DecidableEq, Repr

namespace Role

/-- Comments and imports leave no node. -/
def addsNode : Role → Bool
  | .comment | .importFile => false
  | _ => true

def opens : Role → Bool
  | .mixin | .opener => true
  | _ => false

def closes : Role → Bool
  | .closer => true
  | _ => false

theorem addsNode_of_opens {role : Role} (h : role.opens = true) : role.addsNode = true := by
  cases role <;> simp_all [opens, addsNode]

theorem addsNode_of_closes {role : Role} (h : role.closes = true) : role.addsNode = true := by
  cases role <;> simp_all [closes, addsNode]

end Role

namespace Builder

/-- What a statement is taken for by a builder. -/
def roleOf (b : Builder) (s : Statement) : Role :=
  if s.isComment then .comment
  else if b.openAttribute.isSome then .piece
  else if Directive.isImport s.text then .importFile
  else if Directive.isMixin s.text then .mixin
  else if Directive.isInclude s.text then .includeMixin
  else if s.opens then .opener
  else if s.closes then .closer
  else .plain

def Step.builder : Step → Builder
  | .next b => b
  | .nested _ b _ => b

/-- The rules by which a statement is taken in. -/
inductive Taken (settings : Settings) (ctx : Context) (b : Builder) (s : Statement) :
    Role → Step → Prop
  | comment : Taken settings ctx b s .comment (.next b)
  | piece (a : OpenAttribute) (hopen : b.openAttribute = some a) (hclose : s.closes = false) :
    Taken settings ctx b s .piece (.next (b.continueValue a s ctx.isExpanding))
  | importFile (target : Text) (path : Path) (source : Text) (body : List Statement)
    (hopen : b.openAttribute = none) (htarget : Directive.importTarget? s.text = some target)
    (hpath : path = (ctx.base.join ⟨target⟩).normalize)
    (hdepth : ctx.imports.length < settings.maxImportDepth) (hcycle : path ∉ ctx.imports)
    (hload : settings.load path = .ok source) (hscan : Statement.scan source = .ok body) :
    Taken settings ctx b s .importFile
      (.nested (ctx.enterImport path b.scopes.length) b body)
  | mixin (header : MixinHeader) (hopen : b.openAttribute = none)
    (hheader : Directive.mixin? s.text = some header) :
    Taken settings ctx b s .mixin
      (.next (b.addOpen s (.mixin header.name header.params) true ctx.isExpanding))
  | unknown (request : Include) (hopen : b.openAttribute = none)
    (hrequest : Directive.include? s.text = some request)
    (hfind : b.mixins.find? request.name = none) :
    Taken settings ctx b s .includeMixin (.next (b.add s .generic true ctx.isExpanding))
  | expand (request : Include) (m : Mixin) (body : List Statement)
    (hopen : b.openAttribute = none) (hrequest : Directive.include? s.text = some request)
    (hfind : b.mixins.find? request.name = some m) (hactive : request.name ∉ ctx.active)
    (hscan : Statement.scanLines (m.expand (b.add s .generic true ctx.isExpanding).doc
      (Directive.resolveParams m.params request.args)) = .ok body) :
    Taken settings ctx b s .includeMixin
      (.nested (ctx.enterMixin b.mixins request.name b.scopes.length)
        (b.add s .generic true ctx.isExpanding) body)
  | plain (role : Role) (hopen : b.openAttribute = none) (hopens : role.opens = s.opens)
    (hcloses : role.closes = s.closes) (hrole : role = .opener ∨ role = .closer ∨ role = .plain)
    (hfloor : s.closes = true → ctx.floor < b.scopes.length) :
    Taken settings ctx b s role (.next (b.plain s ctx.isExpanding))

theorem not_closes_of_opens {s : Statement} (h : s.opens = true) : s.closes = false := by
  rw [Statement.closes, beq_eq_false_iff_ne]
  intro htext
  rw [Statement.opens, htext] at h
  exact absurd h (by decide)

theorem not_closes_of_directive {s : Statement}
    (h : Directive.isMixin s.text = true ∨ Directive.isInclude s.text = true) :
    s.closes = false := by
  rw [Statement.closes, beq_eq_false_iff_ne]
  intro htext
  rw [htext] at h
  exact absurd h (by decide)

section Rules

variable {settings : Settings} {ctx : Context} {b : Builder} {s : Statement} {r : Step}

theorem taken_comment_iff : Taken settings ctx b s .comment r ↔ r = .next b := by
  constructor
  · intro h
    cases h with
    | comment => rfl
    | plain _ _ _ _ hrole => simp at hrole
  · rintro rfl
    exact .comment

theorem taken_piece_iff {a : OpenAttribute} (hopen : b.openAttribute = some a) :
    Taken settings ctx b s .piece r ↔
      s.closes = false ∧ r = .next (b.continueValue a s ctx.isExpanding) := by
  constructor
  · intro h
    cases h with
    | piece a' hopen' hclose =>
      obtain rfl : a = a' := Option.some.inj (hopen.symm.trans hopen')
      exact ⟨hclose, rfl⟩
    | plain _ _ _ _ hrole => simp at hrole
  · rintro ⟨hclose, rfl⟩
    exact .piece a hopen hclose

theorem importFile_eq_ok_iff (hopen : b.openAttribute = none) :
    b.importFile settings ctx s = .ok r ↔ Taken settings ctx b s .importFile r := by
  constructor
  · intro h
    unfold importFile at h
    split at h
    · cases h
    · next target htarget =>
      dsimp only at h
      split_ifs at h with hdepth hcycle
      split at h
      · cases h
      · next source hload =>
        split at h
        · cases h
        · next body hscan =>
          obtain rfl := Except.ok.inj h
          exact .importFile target _ source body hopen htarget rfl (by omega)
            (by simpa using hcycle) hload hscan
  · intro h
    cases h with
    | importFile target path source body _ htarget hpath hdepth hcycle hload hscan =>
      subst hpath
      simp [importFile, htarget, Nat.not_le_of_lt hdepth, hcycle, hload, hscan]
    | plain _ _ _ _ hrole => simp at hrole

theorem openMixin_eq_ok_iff (hopen : b.openAttribute = none) :
    b.openMixin ctx s = .ok r ↔ Taken settings ctx b s .mixin r := by
  constructor
  · intro h
    unfold openMixin at h
    split at h
    · cases h
    · next header hheader =>
      obtain rfl := Except.ok.inj h
      exact .mixin header hopen hheader
  · intro h
    cases h with
    | mixin header _ hheader => simp [openMixin, hheader]
    | plain _ _ _ _ hrole => simp at hrole

theorem includeMixin_eq_ok_iff (hopen : b.openAttribute = none) :
    b.includeMixin ctx s = .ok r ↔ Taken settings ctx b s .includeMixin r := by
  constructor
  · intro h
    unfold includeMixin at h
    split at h
    · cases h
    · next request hrequest =>
      dsimp only at h
      split at h
      · next hfind =>
        obtain rfl := Except.ok.inj h
        exact .unknown request hopen hrequest hfind
      · next m hfind =>
        split_ifs at h with hactive
        split at h
        · cases h
        · next body hscan =>
          obtain rfl := Except.ok.inj h
          exact .expand request m body hopen hrequest hfind (by simpa using hactive) hscan
  · intro h
    cases h with
    | unknown request _ hrequest hfind => simp [includeMixin, hrequest, add, hfind]
    | expand request m body _ hrequest hfind hactive hscan =>
      have hfind' : (b.add s .generic true ctx.isExpanding).mixins.find? request.name = some m :=
        hfind
      simp only [includeMixin, hrequest, hfind', List.contains_eq_mem, hactive, decide_false, hscan]
      rfl
    | plain _ _ _ _ hrole => simp at hrole

/-- Statements that are no directives are told apart by whether they open or close a block. -/
theorem taken_plain_iff (hopen : b.openAttribute = none) :
    Taken settings ctx b s
        (if s.opens = true then .opener else if s.closes = true then .closer else .plain) r ↔
      (s.closes = true → ctx.floor < b.scopes.length) ∧
        r = .next (b.plain s ctx.isExpanding) := by
  have hplain : ∀ role, role = .opener ∨ role = .closer ∨ role = .plain →
      Taken settings ctx b s role r → (s.closes = true → ctx.floor < b.scopes.length) ∧
        r = .next (b.plain s ctx.isExpanding) := by
    intro role hrole h
    cases h with
    | plain _ _ _ _ _ hfloor => exact ⟨hfloor, rfl⟩
    | _ => simp at hrole
  constructor
  · refine hplain _ ?_
    split_ifs <;> simp
  · rintro ⟨hfloor, rfl⟩
    split_ifs with hopens hcloses
    · exact .plain .opener hopen hopens.symm (not_closes_of_opens hopens).symm (Or.inl rfl) hfloor
    · exact .plain .closer hopen (Bool.of_not_eq_true hopens).symm hcloses.symm
        (Or.inr (Or.inl rfl)) hfloor
    · exact .plain .plain hopen (Bool.of_not_eq_true hopens).symm
        (Bool.of_not_eq_true hcloses).symm (Or.inr (Or.inr rfl)) hfloor

/-- A statement is taken in exactly by the rule that fits it. -/
theorem step_eq_ok_iff :
    step settings ctx b s = .ok r ↔ Taken settings ctx b s (b.roleOf s) r := by
  unfold step roleOf
  by_cases hcomment : s.isComment = true
  · rw [if_pos hcomment, if_pos hcomment, taken_comment_iff, Except.ok.injEq, eq_comm]
  rw [if_neg hcomment, if_neg hcomment]
  cases hopen : b.openAttribute with
  | some a =>
    rw [if_pos (Option.isSome_some), taken_piece_iff hopen]
    cases s.closes <;> simp [eq_comm]
  | none =>
    simp only [Option.isSome_none, Bool.false_eq_true, if_false]
    by_cases himport : Directive.isImport s.text = true
    · rw [if_pos himport, if_pos himport]
      exact importFile_eq_ok_iff hopen
    rw [if_neg himport, if_neg himport]
    -- A closing brace is no directive, so its check comes to the same after those for directives.
    by_cases hmixin : Directive.isMixin s.text = true
    · have hcloses : s.closes = false := not_closes_of_directive (Or.inl hmixin)
      rw [if_neg (by simp [hcloses]), if_pos hmixin, if_pos hmixin]
      exact openMixin_eq_ok_iff hopen
    rw [if_neg hmixin]
    by_cases hinclude : Directive.isInclude s.text = true
    · have hcloses : s.closes = false := not_closes_of_directive (Or.inr hinclude)
      rw [if_neg (by simp [hcloses]), if_neg hmixin, if_pos hinclude, if_pos hinclude]
      exact includeMixin_eq_ok_iff hopen
    rw [if_neg hinclude, if_neg hmixin, if_neg hinclude, taken_plain_iff hopen]
    split
    · next hbelow =>
      obtain ⟨hcloses, hle⟩ : s.closes = true ∧ b.scopes.length ≤ ctx.floor := by
        simpa using hbelow
      exact iff_of_false (by simp) fun htaken ↦ absurd (htaken.1 hcloses) (Nat.not_lt.mpr hle)
    · next habove =>
      have hfloor : s.closes = true → ctx.floor < b.scopes.length := by simpa using habove
      rw [Except.ok.injEq, eq_comm]
      exact (and_iff_right hfloor).symm

theorem taken_of_step (h : step settings ctx b s = .ok r) : Taken settings ctx b s (b.roleOf s) r :=
  step_eq_ok_iff.mp h

end Rules

end Builder

/-! ## What becomes of the builder -/

namespace NodeKind

def mixin? : NodeKind → Option MixinHeader
  | .mixin name params => some ⟨name, params⟩
  | _ => none

def isAttribute : NodeKind → Bool
  | .attribute .. => true
  | _ => false

theorem mixin?_awaitValue_toKind (c : Classification) : c.toKind.awaitValue.mixin? = none := by
  cases c <;> rfl

end NodeKind

namespace Builder

/-- A piece of the open attribute's value is classified as that attribute. -/
def Attentive (b : Builder) : Prop :=
  ∀ a, b.openAttribute = some a → b.scope.Continues a.name

/-- The four things that a statement can do to a builder. -/
inductive Intake (b : Builder) (s : Statement) (expanded : Bool) : Role → Builder → Prop
  | skip (role : Role) (hrole : role = .comment ∨ role = .importFile) :
    Intake b s expanded role b
  | leaf (role : Role) (kind : NodeKind) (suppressed : Bool) (openAttribute : Option OpenAttribute)
    (hrole : role = .piece ∨ role = .includeMixin ∨ role = .plain) (hmixin : kind.mixin? = none)
    (hopens : s.opens = true → kind.isAttribute = true) (hcloses : s.closes = false)
    (hattentive : ∀ a, openAttribute = some a → b.scope.Continues a.name) :
    Intake b s expanded role
      { b with doc := b.doc.graft b.scopes.head? s kind suppressed expanded, openAttribute }
  | opener (role : Role) (kind : NodeKind) (suppressed : Bool) (hopens : s.opens = true)
    (hrole : role = .mixin ∧ kind.mixin? = Directive.mixin? s.text ∧ kind.mixin?.isSome ∨
      role = .opener ∧ kind.mixin? = none) :
    Intake b s expanded role
      { b with
        doc := b.doc.graft b.scopes.head? s kind suppressed expanded
        scopes := b.doc.size :: b.scopes
        openAttribute := none }
  | closer (id : NodeId) (outer : List NodeId) (hcloses : s.closes = true)
    (hscopes : b.scopes = id :: outer) :
    Intake b s expanded .closer
      (closeBlock
        { b with
          doc := b.doc.graft (some id) s .generic false expanded
          openAttribute := none })

theorem opened?_eq_some {scope : Scope} {s : Statement} {a : OpenAttribute}
    (h : opened? (scope.classify s.text).toKind.awaitValue s = some a) :
    ∃ isEvent, scope.classify s.text = .attribute a.name [] isEvent := by
  rcases hclass : scope.classify s.text with ⟨tag, classes⟩ | ⟨name, value, isEvent⟩ | _
  · simp [hclass, opened?, Classification.toKind, NodeKind.awaitValue] at h
  · simp only [hclass, Classification.toKind, NodeKind.awaitValue, Bool.false_or] at h
    cases value with
    | nil =>
      have ha : a = ⟨name, s.line, s.text⟩ := by simpa [opened?] using h.symm
      exact ⟨isEvent, by rw [ha]⟩
    | cons c value => simp [opened?] at h
  · simp [hclass, opened?, Classification.toKind, NodeKind.awaitValue] at h

theorem opened?_eq_none_of_opens {s : Statement} (hs : s.IsShaped) (hopens : s.opens = true)
    (scope : Scope) : opened? (scope.classify s.text).toKind.awaitValue s = none := by
  cases hopened : opened? (scope.classify s.text).toKind.awaitValue s with
  | none => rfl
  | some a =>
    obtain ⟨isEvent, hclass⟩ := opened?_eq_some hopened
    have hattr := (Scope.classify_eq_attribute hclass).2
    rw [Classification.not_opens_of_valueless hs hattr] at hopens
    cases hopens

theorem Intake.of_plain {b : Builder} {s : Statement} (hs : s.IsShaped) {role : Role}
    (hopens : role.opens = s.opens) (hcloses : role.closes = s.closes)
    (hrole : role = .opener ∨ role = .closer ∨ role = .plain)
    (hscopes : s.closes = true → b.scopes ≠ []) (expanded : Bool) :
    Intake b s expanded role (b.plain s expanded) := by
  unfold Builder.plain
  dsimp only
  rcases hrole with rfl | rfl | rfl
  · have hopens : s.opens = true := hopens.symm
    rw [if_pos hopens, opened?_eq_none_of_opens hs hopens]
    exact .opener .opener _ false hopens
      (Or.inr ⟨rfl, NodeKind.mixin?_awaitValue_toKind _⟩)
  · have hopens : s.opens = false := hopens.symm
    have hcloses : s.closes = true := hcloses.symm
    have htext : s.text = ['}'] := by simpa [Statement.closes] using hcloses
    obtain ⟨id, outer, houter⟩ := List.exists_cons_of_ne_nil (hscopes hcloses)
    have hgeneric : (b.scope.classify s.text).toKind.awaitValue = .generic := by
      rw [htext, Scope.classify_closing]
      rfl
    rw [if_neg (by simp [hopens]), if_pos hcloses, hgeneric]
    have hintake : Intake b s expanded .closer _ := .closer id outer hcloses houter
    rw [show (some id : Option NodeId) = b.scopes.head? by simp [houter]] at hintake
    exact hintake
  · have hopens : s.opens = false := hopens.symm
    have hcloses : s.closes = false := hcloses.symm
    rw [if_neg (by simp [hopens]), if_neg (by simp [hcloses])]
    refine .leaf .plain _ false _ (Or.inr (Or.inr rfl)) (NodeKind.mixin?_awaitValue_toKind _)
      (by simp [hopens]) hcloses ?_
    intro a ha
    obtain ⟨isEvent, hclass⟩ := opened?_eq_some ha
    exact Scope.continues_of_classify hclass

theorem Intake.of_piece {b : Builder} (hb : b.Attentive) {a : OpenAttribute} {s : Statement}
    (hopen : b.openAttribute = some a) (hcloses : s.closes = false) (expanded : Bool) :
    Intake b s expanded .piece (b.continueValue a s expanded) := by
  obtain ⟨value, isEvent, hclass⟩ := hb a hopen s.text
  have hintake : ∀ openAttribute, (∀ a, openAttribute = some a → b.scope.Continues a.name) →
      Intake b s expanded .piece
        { b.add s (.attribute a.name value isEvent false) false expanded with
          openAttribute } := fun openAttribute hattentive ↦
    .leaf .piece _ false openAttribute (Or.inl rfl) rfl (fun _ ↦ rfl) hcloses hattentive
  unfold continueValue
  simp only [hclass, Classification.toKind]
  split
  · exact hintake none (by simp)
  · exact hintake b.openAttribute hb

theorem not_closes_of_include? {s : Statement} {request : Include}
    (h : Directive.include? s.text = some request) : s.closes = false := by
  rw [Statement.closes, beq_eq_false_iff_ne]
  intro htext
  rw [htext] at h
  cases h

/-- Every rule does one of the four things. -/
theorem Taken.intake {settings : Settings} {ctx : Context} {b : Builder} {s : Statement}
    {role : Role} {r : Step} (h : Taken settings ctx b s role r) (hs : s.IsShaped)
    (hb : b.Attentive) : Intake b s ctx.isExpanding role r.builder := by
  cases h with
  | comment => exact .skip .comment (Or.inl rfl)
  | piece a hopen hclose => exact .of_piece hb hopen hclose _
  | importFile => exact .skip .importFile (Or.inr rfl)
  | mixin header hopen hheader =>
    have hintake : Intake b s ctx.isExpanding .mixin _ :=
      .opener .mixin (.mixin header.name header.params) true
        (Directive.mixin?_opens hs.trimmed hheader) (Or.inl ⟨rfl, hheader.symm, rfl⟩)
    rw [← hopen] at hintake
    exact hintake
  | unknown request hopen hrequest hfind =>
    exact .leaf .includeMixin .generic true b.openAttribute (Or.inr (Or.inl rfl)) rfl
      (by simp [Statement.opens, Directive.include?_not_opens hrequest])
      (not_closes_of_include? hrequest) hb
  | expand request m body hopen hrequest hfind hactive hscan =>
    exact .leaf .includeMixin .generic true b.openAttribute (Or.inr (Or.inl rfl)) rfl
      (by simp [Statement.opens, Directive.include?_not_opens hrequest])
      (not_closes_of_include? hrequest) hb
  | plain role hopen hopens hcloses hrole hfloor =>
    refine .of_plain hs hopens hcloses hrole (fun hclose hnil ↦ ?_) _
    have hlt := hfloor hclose
    simp [hnil] at hlt

/-! ## Closing a block -/

@[simp] theorem closeBlock_doc (b : Builder) : b.closeBlock.doc = b.doc := by
  unfold closeBlock
  split
  · rfl
  · dsimp only
    split <;> rfl

@[simp] theorem closeBlock_scopes (b : Builder) : b.closeBlock.scopes = b.scopes.tail := by
  unfold closeBlock
  split
  · next h => simp [h]
  · next h =>
    dsimp only
    split <;> simp [h]

@[simp] theorem closeBlock_openAttribute (b : Builder) :
    b.closeBlock.openAttribute = b.openAttribute := by
  unfold closeBlock
  split
  · rfl
  · dsimp only
    split <;> rfl

def definition? (b : Builder) (id : NodeId) : Option Mixin :=
  (b.doc.get? id).bind fun n ↦ n.kind.mixin?.map fun header ↦ ⟨header.name, header.params, id⟩

theorem closeBlock_mixins (b : Builder) :
    b.closeBlock.mixins =
      match b.scopes.head?.bind b.definition? with
      | some m => b.mixins.register m
      | none => b.mixins := by
  unfold closeBlock
  cases hscopes : b.scopes with
  | nil => rfl
  | cons id outer =>
    simp only [List.head?_cons, Option.bind_some, definition?]
    cases hget : b.doc.get? id with
    | none => rfl
    | some n => cases hkind : n.kind <;> simp [hkind, NodeKind.mixin?]

/-! ## Taking in what is no directive -/

section Plain

variable (b : Builder) (a : OpenAttribute) (s : Statement) (expanded : Bool)

theorem doc_plain :
    (b.plain s expanded).doc = b.doc.graft b.scopes.head? s
      (b.scope.classify s.text).toKind.awaitValue false expanded := by
  unfold plain
  split
  · rfl
  · split
    · exact closeBlock_doc _
    · rfl

theorem openAttribute_plain :
    (b.plain s expanded).openAttribute =
      opened? (b.scope.classify s.text).toKind.awaitValue s := by
  unfold plain
  split
  · rfl
  · split
    · exact closeBlock_openAttribute _
    · rfl

theorem doc_continueValue :
    (b.continueValue a s expanded).doc = b.doc.graft b.scopes.head? s
      (b.scope.classify ("--".toList ++ a.name ++ ": ".toList ++ s.text)).toKind false
      expanded := by
  unfold continueValue
  split <;> rfl

theorem scopes_continueValue : (b.continueValue a s expanded).scopes = b.scopes := by
  unfold continueValue
  split <;> rfl

theorem openAttribute_continueValue :
    (b.continueValue a s expanded).openAttribute =
      if endsValue s then none else b.openAttribute := by
  unfold continueValue
  split <;> rfl

end Plain

/-- A statement that starts neither as a comment nor as a directive is taken in as it is. -/
theorem step_plain {settings : Settings} {ctx : Context} {b : Builder} {s : Statement}
    (hopen : b.openAttribute = none) {c : Char} (hhead : s.text.head? = some c) (hslash : c ≠ '/')
    (hat : c ≠ '@') (hfloor : s.closes = true → ctx.floor < b.scopes.length) :
    b.step settings ctx s = .ok (.next (b.plain s ctx.isExpanding)) := by
  have hcomment : s.isComment = false := by
    apply Bool.eq_false_iff.mpr
    intro hcomment
    obtain ⟨rest, hrest⟩ := List.isPrefixOf_iff_prefix.mp hcomment
    rw [← hrest] at hhead
    exact hslash (Option.some.inj hhead).symm
  have hnone : ∀ keyword : Text, keyword.head? = some '@' → Text.after? keyword s.text = none :=
    fun keyword hkeyword ↦ Text.after?_eq_none_of_head hkeyword hhead hat
  have himport : Directive.isImport s.text = false := by
    rw [Directive.isImport, hnone _ rfl]
  have hmixin : Directive.isMixin s.text = false := by
    rw [Directive.isMixin, Directive.hasKeyword, hnone _ rfl]
  have hinclude : Directive.isInclude s.text = false := by
    rw [Directive.isInclude, Directive.hasKeyword, hnone _ rfl]
  have hclose : (s.closes && decide (b.scopes.length ≤ ctx.floor)) = false := by
    cases hs : s.closes with
    | false => rfl
    | true => simpa using hfloor hs
  simp [step, hcomment, hopen, himport, hmixin, hinclude, hclose]

theorem scope_graft (b : Builder) (hscopes : ∀ i ∈ b.scopes, i < b.doc.size) (s : Statement)
    (kind : NodeKind) (suppressed expanded : Bool) (openAttribute : Option OpenAttribute) :
    scope { b with
      doc := b.doc.graft b.scopes.head? s kind suppressed expanded, openAttribute } = b.scope := by
  unfold scope
  cases hcase : b.scopes with
  | nil => rfl
  | cons id outer =>
    have hid : id < b.doc.size := hscopes id (by simp [hcase])
    have hparent : ∀ p, some id = some p → p < b.doc.size := by
      rintro p ⟨⟩
      exact hid
    have hkind := Document.map_get?_graft b.doc s kind suppressed expanded (f := Node.kind)
      (by intro n i asAttribute; cases asAttribute <;> rfl) hparent id
    simp only [List.head?_cons, hkind, if_neg (Nat.ne_of_lt hid)]

theorem Intake.attentive {b b' : Builder} {s : Statement} {expanded : Bool} {role : Role}
    (h : Intake b s expanded role b') (hb : b.Attentive)
    (hscopes : ∀ i ∈ b.scopes, i < b.doc.size) : b'.Attentive := by
  cases h with
  | skip => exact hb
  | leaf role kind suppressed openAttribute hrole hmixin hopens hcloses hattentive =>
    intro a ha
    rw [scope_graft b hscopes]
    exact hattentive a ha
  | opener => exact fun a ha ↦ absurd ha (by simp)
  | closer => exact fun a ha ↦ absurd ha (by simp)

/-! ## The parts of the builder -/

section Parts

variable {b b' : Builder} {s : Statement} {expanded : Bool} {role : Role}

theorem Intake.doc_cases (h : Intake b s expanded role b') :
    role.addsNode = false ∧ b'.doc = b.doc ∨
      role.addsNode = true ∧ ∃ kind suppressed,
        b'.doc = b.doc.graft b.scopes.head? s kind suppressed expanded ∧
          kind.mixin? = if role = .mixin then Directive.mixin? s.text else none := by
  cases h with
  | skip role hrole => exact Or.inl ⟨by rcases hrole with rfl | rfl <;> rfl, rfl⟩
  | leaf role kind suppressed openAttribute hrole hmixin =>
    refine Or.inr ⟨?_, kind, suppressed, rfl, ?_⟩
    · rcases hrole with rfl | rfl | rfl <;> rfl
    · rw [hmixin]
      rcases hrole with rfl | rfl | rfl <;> rfl
  | opener role kind suppressed hopens hrole =>
    refine Or.inr ⟨?_, kind, suppressed, rfl, ?_⟩
    · rcases hrole with ⟨rfl, -⟩ | ⟨rfl, -⟩ <;> rfl
    · rcases hrole with ⟨rfl, hmixin, -⟩ | ⟨rfl, hmixin⟩
      · exact hmixin
      · exact hmixin
  | closer id outer hcloses hscopes =>
    exact Or.inr ⟨rfl, .generic, false, by simp [hscopes], rfl⟩

theorem Intake.scopes_eq (h : Intake b s expanded role b') :
    b'.scopes =
      if role.opens then b.doc.size :: b.scopes
      else if role.closes then b.scopes.tail else b.scopes := by
  cases h with
  | skip role hrole => rcases hrole with rfl | rfl <;> rfl
  | leaf role kind suppressed openAttribute hrole => rcases hrole with rfl | rfl | rfl <;> rfl
  | opener role kind suppressed hopens hrole => rcases hrole with ⟨rfl, -⟩ | ⟨rfl, -⟩ <;> rfl
  | closer id outer hcloses hscopes => simp [Role.opens, Role.closes]

theorem Intake.statement_closes (h : Intake b s expanded role b') (hcloses : role.closes = true) :
    s.closes = true := by
  cases h with
  | skip role hrole => rcases hrole with rfl | rfl <;> cases hcloses
  | leaf role kind suppressed openAttribute hrole =>
    rcases hrole with rfl | rfl | rfl <;> cases hcloses
  | opener role kind suppressed hopens hrole =>
    rcases hrole with ⟨rfl, -⟩ | ⟨rfl, -⟩ <;> cases hcloses
  | closer id outer hclose hscopes => exact hclose

theorem Intake.mixins_eq (h : Intake b s expanded role b')
    (hlt : ∀ i ∈ b.scopes, i < b.doc.size) :
    b'.mixins = if role.closes then b.closeBlock.mixins else b.mixins := by
  cases h with
  | skip role hrole => rcases hrole with rfl | rfl <;> rfl
  | leaf role kind suppressed openAttribute hrole => rcases hrole with rfl | rfl | rfl <;> rfl
  | opener role kind suppressed hopens hrole => rcases hrole with ⟨rfl, -⟩ | ⟨rfl, -⟩ <;> rfl
  | closer id outer hcloses hscopes =>
    have hid : id < b.doc.size := hlt id (by simp [hscopes])
    have hparent : ∀ p, some id = some p → p < b.doc.size := by
      rintro p ⟨⟩
      exact hid
    have hkind := Document.map_get?_graft b.doc s .generic false expanded (f := Node.kind)
      (by intro n i asAttribute; cases asAttribute <;> rfl) hparent id
    rw [if_neg (Nat.ne_of_lt hid)] at hkind
    have hdef : ∀ c : Builder, c.definition? id =
        ((c.doc.get? id).map Node.kind).bind fun kind ↦
          kind.mixin?.map fun header ↦ ⟨header.name, header.params, id⟩ := by
      intro c
      rw [definition?]
      cases c.doc.get? id <;> rfl
    rw [if_pos (show Role.closer.closes = true from rfl), closeBlock_mixins, closeBlock_mixins]
    simp only [hscopes, List.head?_cons, Option.bind_some, hdef, hkind]

theorem Intake.size_le (h : Intake b s expanded role b') : b.doc.size ≤ b'.doc.size := by
  rcases h.doc_cases with ⟨-, hdoc⟩ | ⟨-, kind, suppressed, hdoc, -⟩
  · exact Nat.le_of_eq (by rw [hdoc])
  · rw [hdoc, Document.size_graft]
    exact Nat.le_succ _

theorem Intake.has_eq (h : Intake b s expanded role b') (hlt : ∀ i ∈ b.scopes, i < b.doc.size)
    {p : Node → Bool} (hp : ∀ n id asAttribute, p (Node.adopt n id asAttribute) = p n) {i : NodeId}
    (hi : i < b.doc.size) : b'.doc.has p i = b.doc.has p i := by
  rcases h.doc_cases with ⟨-, hdoc⟩ | ⟨-, kind, suppressed, hdoc, -⟩
  · rw [hdoc]
  · rw [hdoc, Document.has_graft b.doc s kind suppressed expanded hp
      (fun p hp ↦ hlt p (List.mem_of_head? hp)), if_neg (Nat.ne_of_lt hi)]

end Parts

end Builder

end StyledMarkup
