import StyledMarkup.Document
import StyledMarkup.Token

/-!
# Variables

A statement `$name: value;` declares a variable for the whole document, wherever it stands, and is
not rendered itself. Four variables are always there. A caller may override variables by name.

A value may mention other variables, so replacing is repeated until the text stays as it is. With
mentions that go round in a circle it never would, so the number of rounds is limited by the number
of variables; tokens that are left then stay in the text.
-/

namespace StyledMarkup

/-- Values by name. A name includes its dollar sign and stands once. -/
structure Bindings where
  entries : List (Text × Text) := []
  deriving DecidableEq, Repr

namespace Bindings

def size (b : Bindings) : Nat :=
  b.entries.length

def find? (b : Bindings) (name : Text) : Option Text :=
  b.entries.lookup name

/-- Gives a name a value, in place of an earlier one. -/
def insert (b : Bindings) (name value : Text) : Bindings :=
  ⟨b.entries.filter (fun entry ↦ entry.1 != name) ++ [(name, value)]⟩

/-- Gives names values in order. -/
def insertAll (b : Bindings) (entries : List (Text × Text)) : Bindings :=
  entries.foldl (fun b entry ↦ b.insert entry.1 entry.2) b

/-- The variables of every document: access to the custom properties of the first rule of the
page's stylesheet, and to the reading and writing of JSON. -/
def builtin : Bindings :=
  ⟨[("$setVariable".toList,
      "document.getElementById('stylesheet').sheet.cssRules[0].style.setProperty".toList),
    ("$getVariable".toList,
      "document.getElementById('stylesheet').sheet.cssRules[0].style.getPropertyValue".toList),
    ("$parseObject".toList, "JSON.parse".toList),
    ("$stringifyObject".toList, "JSON.stringify".toList)]⟩

end Bindings

/-! ## Declarations -/

/-- Reads `$name: value;`. -/
def declaration? (t : Text) : Option (Text × Text) :=
  if t.head? = some '$' then
    match Text.splitAt? ':' t with
    | none => none
    | some (before, rest) =>
      let name := Text.trimEnd before
      if name.length < 2 ∨ name.any Text.isBlank then none
      else (Text.before? [';'] (Text.trim rest)).map fun value ↦ (name, Text.trimEnd value)
  else none

/-- The variable that a node declares. -/
def Node.declaration? (n : Node) : Option (Text × Text) :=
  if n.kind = .generic then StyledMarkup.declaration? n.raw else none

namespace Document

/-- The variables of a document. The last declaration of a name counts. -/
def bindings (doc : Document) : Bindings :=
  Bindings.builtin.insertAll (doc.nodes.toList.filterMap Node.declaration?)

/-- The document with its declarations taken out of what is rendered. -/
def suppressDeclarations (doc : Document) : Document :=
  { doc with
    nodes := doc.nodes.map fun n ↦
      if n.declaration?.isSome then { n with suppressed := true } else n }

end Document

/-! ## Resolving -/

/-- What variables are replaced by: the caller's values first, then those of the document. -/
structure Resolver where
  overrides : Bindings := {}
  table : Bindings := Bindings.builtin
  deriving Repr

namespace Resolver

/-- Replaces every variable once. -/
def pass (r : Resolver) (t : Text) : Text :=
  Token.substitute r.table.find? (Token.substitute r.overrides.find? t)

/-- Repeats `pass` until nothing changes, at most `rounds` times. -/
def repeatPass (r : Resolver) : (rounds : Nat) → Text → Text
  | 0, t => t
  | rounds + 1, t =>
    let next := r.pass t
    if next = t then t else r.repeatPass rounds next

/-- Replaces variables until nothing changes: once, and then at most once more for each variable. -/
def apply (r : Resolver) (t : Text) : Text :=
  r.repeatPass (r.overrides.size + r.table.size) (r.pass t)

end Resolver

end StyledMarkup
