import StyledMarkup.Builder
import StyledMarkup.Library

/-!
# Feeding statements to a builder

Statements are taken in one after another. An import and an include feed further statements at the
same place before the next one: those of the imported file, or those of the body of the mixin. Such
a nested feed can close no block it did not open, and has to leave neither a block nor an attribute
open.

The floor, the imports and the expansions that are under way could be kept as state, to be pushed
before a nested feed and popped after it. They are passed by value instead, as a `Context`: a nested
feed gets one of its own, which `Context.enterImport` and `Context.enterMixin` make, and the feed
that asked for it goes on in the context it had. So what is pushed for a nested feed never outlives
it.

A feed always ends, whatever the loader returns. An import adds a path to the imports that are
under way, and their number is limited. The outermost include fixes the mixins that may be expanded
inside it, and each further one uses up one of them. A mixin that is defined later, inside the
expansion, consists of nothing but nodes of that expansion, so its body is empty and there is
nothing to feed.
-/

namespace StyledMarkup

/-- What a whole parse depends on besides its source. -/
structure Settings where
  load : Loader
  /-- How many imports may be inside one another. -/
  maxImportDepth : Nat := 32

/-- The includes that are being expanded. -/
structure Expansion where
  /-- The mixins whose bodies are being fed, the innermost first. -/
  active : List Text
  /-- The mixins that may still be expanded inside. -/
  available : List Text
  deriving DecidableEq, Repr

/-- Where a list of statements is fed. It stays the same from the first to the last of them. -/
structure Context where
  /-- The directory that imports are relative to. -/
  base : Path
  /-- The imports that are under way, the innermost first. -/
  imports : List Path := []
  /-- The includes that are under way. -/
  expansion : Option Expansion := none
  /-- The number of blocks that were open at the start; they stay open. -/
  floor : Nat := 0
  deriving DecidableEq, Repr

namespace Context

/-- Nodes made here come from an include. -/
def isExpanding (ctx : Context) : Bool :=
  ctx.expansion.isSome

/-- The mixins whose bodies are being fed. -/
def active (ctx : Context) : List Text :=
  (ctx.expansion.map Expansion.active).getD []

/-- The mixins that may still be expanded, once an include is under way. -/
def available (ctx : Context) : List Text :=
  (ctx.expansion.map Expansion.available).getD []

/-- The context of the statements of an imported file. -/
def enterImport (ctx : Context) (path : Path) (floor : Nat) : Context :=
  { ctx with
    base := path.parent?.getD Path.empty
    imports := path :: ctx.imports
    floor }

/-- The context of the body of a mixin. The outermost include fixes the mixins that may be expanded
inside it. -/
def enterMixin (ctx : Context) (mixins : Registry) (name : Text) (floor : Nat) : Context :=
  match ctx.expansion with
  | none => { ctx with expansion := some ⟨[name], mixins.names.erase name⟩, floor }
  | some e => { ctx with expansion := some ⟨name :: e.active, e.available.erase name⟩, floor }

end Context

namespace Builder

/-- What taking in one statement asks for. -/
inductive Step where
  | next (b : Builder)
  /-- Feed these statements in this context first. -/
  | nested (inner : Context) (b : Builder) (body : List Statement)

def openMixin (b : Builder) (ctx : Context) (s : Statement) : Except ParseError Step :=
  match Directive.mixin? s.text with
  | none => .error (.ofStatement .malformedMixin s)
  | some header =>
    .ok (.next (b.addOpen s (.mixin header.name header.params) true ctx.isExpanding))

/-- Asks for the body of a mixin. An unknown mixin is passed over. -/
def includeMixin (b : Builder) (ctx : Context) (s : Statement) : Except ParseError Step :=
  match Directive.include? s.text with
  | none => .error (.ofStatement .malformedInclude s)
  | some request =>
    let b := b.add s .generic true ctx.isExpanding
    match b.mixins.find? request.name with
    | none => .ok (.next b)
    | some m =>
      if ctx.active.contains request.name then
        .error (.ofStatement (.recursiveInclude request.name) s)
      else
        match Statement.scanLines
            (m.expand b.doc (Directive.resolveParams m.params request.args)) with
        | .error e => .error (.ofScan e)
        | .ok body => .ok (.nested (ctx.enterMixin b.mixins request.name b.scopes.length) b body)

/-- Asks for the statements of a file. -/
def importFile (settings : Settings) (b : Builder) (ctx : Context) (s : Statement) :
    Except ParseError Step :=
  match Directive.importTarget? s.text with
  | none => .error (.ofStatement .malformedImport s)
  | some target =>
    let path := (ctx.base.join ⟨target⟩).normalize
    if settings.maxImportDepth ≤ ctx.imports.length then
      .error (.ofStatement (.importDepthExceeded settings.maxImportDepth) s)
    else if ctx.imports.contains path then
      .error (.ofStatement (.importCycle path) s)
    else
      match settings.load path with
      | .error reason => .error (.ofStatement (.importNotFound path reason) s)
      | .ok source =>
        match Statement.scan source with
        | .error e => .error (.ofScan e)
        | .ok body => .ok (.nested (ctx.enterImport path b.scopes.length) b body)

/-- Takes in one statement. While an attribute is open, every statement but a comment and a closing
brace is a piece of its value. -/
def step (settings : Settings) (ctx : Context) (b : Builder) (s : Statement) :
    Except ParseError Step :=
  if s.isComment then .ok (.next b)
  else
    match b.openAttribute with
    | some a =>
      if s.closes then .error a.error
      else .ok (.next (b.continueValue a s ctx.isExpanding))
    | none =>
      if Directive.isImport s.text then b.importFile settings ctx s
      else if s.closes && b.scopes.length ≤ ctx.floor then
        .error (.ofStatement .unbalancedBraces s)
      else if Directive.isMixin s.text then b.openMixin ctx s
      else if Directive.isInclude s.text then b.includeMixin ctx s
      else .ok (.next (b.plain s ctx.isExpanding))

/-- Checks the end of a nested feed that the statement `origin` asked for. -/
def settle (b : Builder) (inner : Context) (origin : Statement) : Except ParseError Builder :=
  match b.openAttribute with
  | some a => .error a.error
  | none =>
    if b.scopes.length = inner.floor then .ok b
    else .error (.ofStatement .unbalancedBraces origin)

/-! ## Every feed ends -/

/-- The imports that may still be put inside those under way. -/
def importsLeft (settings : Settings) (ctx : Context) : Nat :=
  settings.maxImportDepth - ctx.imports.length

/-- One outside every include, zero inside. -/
def outside (ctx : Context) : Nat :=
  if ctx.isExpanding then 0 else 1

/-- A nested feed with fewer imports left, or the first one inside an include, or one in which fewer
mixins may be expanded. -/
def IsSmaller (settings : Settings) (inner ctx : Context) : Prop :=
  importsLeft settings inner < importsLeft settings ctx ∨
    importsLeft settings inner = importsLeft settings ctx ∧
      (outside inner < outside ctx ∨
        outside inner = outside ctx ∧ inner.available.length < ctx.available.length)

instance (settings : Settings) (inner ctx : Context) : Decidable (IsSmaller settings inner ctx) :=
  inferInstanceAs (Decidable (_ ∨ _))

/-- Takes in statements one after another, nested feeds in their places. A nested feed that is not
smaller is that of a mixin defined inside the expansion under way, which has no statements. -/
def feed (settings : Settings) (ctx : Context) (b : Builder) (statements : List Statement) :
    Except ParseError Builder :=
  match statements with
  | [] => .ok b
  | s :: rest =>
    match step settings ctx b s with
    | .error e => .error e
    | .ok (.next b') => feed settings ctx b' rest
    | .ok (.nested inner b' body) =>
      if _h : IsSmaller settings inner ctx then
        match feed settings inner b' body with
        | .error e => .error e
        | .ok fed =>
          match fed.settle inner s with
          | .error e => .error e
          | .ok settled => feed settings ctx settled rest
      else feed settings ctx b' rest
termination_by
  (importsLeft settings ctx, outside ctx, ctx.available.length, statements.length)
decreasing_by
  · simp [Prod.lex_def]
  · simp only [IsSmaller] at _h
    simp only [Prod.lex_def]
    omega
  · simp [Prod.lex_def]
  · simp [Prod.lex_def]

end Builder

/-! ## Parsing -/

def Document.ofStatements (settings : Settings) (base : Path) (statements : List Statement) :
    Except ParseError Document :=
  match Builder.feed settings { base } {} statements with
  | .error e => .error e
  | .ok b => b.finish

/-- The document of a source, whose imports are relative to `base`. -/
def Document.parse (settings : Settings) (base : Path) (source : Text) :
    Except ParseError Document :=
  match Statement.scan source with
  | .error e => .error (.ofScan e)
  | .ok statements => Document.ofStatements settings base statements

end StyledMarkup
