import StyledMarkup.Classification
import StyledMarkup.Mixin
import StyledMarkup.ParseError

/-!
# Building a document

A builder holds the document built so far, the blocks that are open, the mixins that can be
included, and the attribute whose value is being collected, if there is one. This module has the
operations that take one ordinary statement in. What directives do is in `Builder.Feed`.
-/

namespace StyledMarkup

/-- An attribute declared without a value, which the following statements supply. -/
structure OpenAttribute where
  name : Text
  line : Nat
  text : Text
  deriving DecidableEq, Repr

/-- The error of an attribute whose value is never closed. -/
def OpenAttribute.error (a : OpenAttribute) : ParseError :=
  ⟨.unterminatedAttribute a.name, a.line, a.text⟩

/-- A document under construction. -/
structure Builder where
  doc : Document := {}
  /-- The open blocks, the innermost first. -/
  scopes : List NodeId := []
  mixins : Registry := {}
  openAttribute : Option OpenAttribute := none
  deriving DecidableEq, Repr

/-- The node kind that a classification calls for. -/
def Classification.toKind : Classification → NodeKind
  | .element tag classes => .element tag classes
  | .attribute name value isEvent => .attribute name value isEvent false
  | .generic => .generic

/-- An attribute without a value waits for one. -/
def NodeKind.awaitValue : NodeKind → NodeKind
  | .attribute name value isEvent multilineOpen =>
    .attribute name value isEvent (multilineOpen || value.isEmpty)
  | kind => kind

namespace Builder

/-- The innermost open block, as far as it matters for classification. -/
def scope (b : Builder) : Scope :=
  match b.scopes with
  | [] => .root
  | id :: _ =>
    match (b.doc.get? id).map Node.kind with
    | some (.element tag _) => .element tag
    | some (.mixin ..) => .mixin
    | _ => .block

/-- Adds a node for a statement to the innermost open block. -/
def add (b : Builder) (s : Statement) (kind : NodeKind) (suppressed expanded : Bool) : Builder :=
  let doc := b.doc.alloc { raw := s.text, kind, line := s.line, suppressed, expanded }
  { b with doc := doc.attach b.scopes.head? b.doc.size }

/-- Adds a node for a statement and opens it as a block. -/
def addOpen (b : Builder) (s : Statement) (kind : NodeKind) (suppressed expanded : Bool) :
    Builder :=
  { b.add s kind suppressed expanded with scopes := b.doc.size :: b.scopes }

/-- Closes the innermost block. A mixin can be included from then on. -/
def closeBlock (b : Builder) : Builder :=
  match b.scopes with
  | [] => b
  | id :: outer =>
    let b := { b with scopes := outer }
    match (b.doc.get? id).map Node.kind with
    | some (.mixin name params) => { b with mixins := b.mixins.register ⟨name, params, id⟩ }
    | _ => b

/-- The attribute that an added statement leaves open. -/
def opened? (kind : NodeKind) (s : Statement) : Option OpenAttribute :=
  match kind with
  | .attribute name _ _ true => some ⟨name, s.line, s.text⟩
  | _ => none

/-- Takes in a statement that is no directive. -/
def plain (b : Builder) (s : Statement) (expanded : Bool) : Builder :=
  let kind := (b.scope.classify s.text).toKind.awaitValue
  let b := { b with openAttribute := opened? kind s }
  if s.opens then b.addOpen s kind false expanded
  else if s.closes then (b.add s kind false expanded).closeBlock
  else b.add s kind false expanded

/-- The statement ends the value of the open attribute. -/
def endsValue (s : Statement) : Bool :=
  "\";".toList.isSuffixOf (Text.trimEnd s.text)

/-- Takes in a statement as the next piece of the open attribute's value. -/
def continueValue (b : Builder) (a : OpenAttribute) (s : Statement) (expanded : Bool) : Builder :=
  let declaration := "--".toList ++ a.name ++ ": ".toList ++ s.text
  let b := b.add s (b.scope.classify declaration).toKind false expanded
  if endsValue s then { b with openAttribute := none } else b

/-- The finished document. Every attribute and every block has to be closed. -/
def finish (b : Builder) : Except ParseError Document :=
  match b.openAttribute with
  | some a => .error a.error
  | none =>
    match b.scopes.head?.bind b.doc.get? with
    | some n => .error ⟨.unbalancedBraces, n.line, n.raw⟩
    | none => .ok b.doc

end Builder

end StyledMarkup
