import StyledMarkup.Builder.Feed
import StyledMarkup.Markup
import StyledMarkup.Stylesheet

/-!
# Compiling

A source is parsed once and rendered twice, as an HTML fragment and as a stylesheet.
-/

namespace StyledMarkup

/-- What a caller can choose. -/
structure Options where
  /-- Variables that count before those of the document. -/
  overrides : Bindings := {}
  /-- How many imports may be inside one another. -/
  maxImportDepth : Nat := 32
  deriving DecidableEq, Repr

namespace Options

/-- Overrides a variable. The dollar sign of the name may be left out. -/
def override (o : Options) (name value : Text) : Options :=
  let key := if name.head? = some '$' then name else '$' :: name
  { o with overrides := o.overrides.insert key value }

/-- Overrides variables in order. -/
def overrideAll (o : Options) (entries : List (Text × Text)) : Options :=
  entries.foldl (fun o entry ↦ o.override entry.1 entry.2) o

end Options

/-- Why a source has no output. -/
inductive CompileError where
  | parse (e : ParseError)
  | render (e : RenderError)
  deriving DecidableEq, Repr

def CompileError.message : CompileError → String
  | .parse e => e.message
  | .render e => e.message

/-- Both renderings of a source. -/
structure Output where
  html : Text
  css : Text
  deriving DecidableEq, Repr

namespace Compile

/-- The document to be rendered and what its variables stand for. -/
def prepare (load : Loader) (options : Options) (base : Path) (source : Text) :
    Except CompileError (Document × Resolver) :=
  match Document.parse ⟨load, options.maxImportDepth⟩ base source with
  | .error e => .error (.parse e)
  | .ok doc => .ok (doc.suppressDeclarations, ⟨options.overrides, doc.bindings⟩)

/-- The HTML fragment of a source. -/
def html (load : Loader) (options : Options) (base : Path) (source : Text) :
    Except CompileError Text := do
  let (doc, resolver) ← prepare load options base source
  (Markup.render resolver doc).mapError .render

/-- The stylesheet of a source. -/
def css (load : Loader) (options : Options) (base : Path) (source : Text) :
    Except CompileError Text := do
  let (doc, resolver) ← prepare load options base source
  (Stylesheet.render resolver doc).mapError .render

/-- Both renderings of a source. -/
def both (load : Loader) (options : Options) (base : Path) (source : Text) :
    Except CompileError Output := do
  let (doc, resolver) ← prepare load options base source
  let html ← (Markup.render resolver doc).mapError .render
  let css ← (Stylesheet.render resolver doc).mapError .render
  return ⟨html, css⟩

end Compile

end StyledMarkup
