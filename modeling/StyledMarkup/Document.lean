import StyledMarkup.Directive

/-!
# Documents

A document is an arena of nodes together with the list of its roots. Every statement of a source
becomes a node, numbered in the order of creation. A node lists its attributes apart from its other
children, and both lists are in order of attachment.

`Document.descendants` lists everything below a node, `Document.depth` counts its ancestors, and
`Document.forest` is the document as a list of trees, which is what is rendered. They follow links
at most as often as there are nodes, which is enough in every document without a cycle.
-/

namespace StyledMarkup

/-- The number of a node in its document. -/
abbrev NodeId := Nat

/-- What a node stands for. -/
inductive NodeKind where
  | element (tag : Text) (classes : Option Text)
  /-- An HTML attribute. A declaration whose value stands in the statements after it is marked as
  `multilineOpen` and has no value of its own. -/
  | attribute (name value : Text) (isEvent multilineOpen : Bool)
  | mixin (name : Text) (params : Params)
  | generic
  deriving DecidableEq, Repr, Inhabited

/-- One statement in its place. -/
structure Node where
  /-- The statement as written. -/
  raw : Text
  kind : NodeKind
  /-- The physical line of the statement in its own file. -/
  line : Nat
  attrs : List NodeId := []
  children : List NodeId := []
  parent : Option NodeId := none
  /-- The order of creation. -/
  sourceIndex : Nat := 0
  /-- The node is never rendered. -/
  suppressed : Bool := false
  /-- The node comes from the body of an included mixin. -/
  expanded : Bool := false
  deriving DecidableEq, Repr, Inhabited

namespace Node

def isAttribute (n : Node) : Bool :=
  match n.kind with
  | .attribute .. => true
  | _ => false

/-- The node is a lone closing brace. -/
def isBlockClose (n : Node) : Bool :=
  Text.trim n.raw == ['}']

/-- All nodes directly below: the attributes, then the other children. -/
def below (n : Node) : List NodeId :=
  n.attrs ++ n.children

/-- Takes a node in as the last attribute or as the last child. -/
def adopt (n : Node) (id : NodeId) (asAttribute : Bool) : Node :=
  if asAttribute then { n with attrs := n.attrs ++ [id] }
  else { n with children := n.children ++ [id] }

end Node

/-- An arena of nodes and the numbers of its roots. -/
structure Document where
  nodes : Array Node := #[]
  roots : List NodeId := []
  deriving DecidableEq, Repr, Inhabited

/-- A node with everything below it. -/
inductive Tree where
  | mk (node : Node) (attributes : List Node) (children : List Tree)
  deriving Repr, Inhabited

namespace Document

def size (doc : Document) : Nat :=
  doc.nodes.size

def get? (doc : Document) (id : NodeId) : Option Node :=
  doc.nodes[id]?

/-! ## Growing a document -/

/-- Stores a node under the next number, attached nowhere. -/
def alloc (doc : Document) (n : Node) : Document :=
  { doc with nodes := doc.nodes.push { n with sourceIndex := doc.size } }

/-- Attaches a node below `parent`, or as a root. -/
def attach (doc : Document) (parent : Option NodeId) (child : NodeId) : Document :=
  match parent with
  | none => { doc with roots := doc.roots ++ [child] }
  | some p =>
    let asAttribute := (doc.get? child).any Node.isAttribute
    { doc with
      nodes := (doc.nodes.modify child fun n ↦ { n with parent := some p }).modify p
        fun n ↦ n.adopt child asAttribute }

/-! ## Walking up and down -/

def below (doc : Document) (id : NodeId) : List NodeId :=
  ((doc.get? id).map Node.below).getD []

/-- The ancestors of a node, the nearest first, at most `bound` of them. -/
def ancestorsWithin (doc : Document) : (bound : Nat) → NodeId → List NodeId
  | 0, _ => []
  | bound + 1, id =>
    match (doc.get? id).bind Node.parent with
    | none => []
    | some p => p :: doc.ancestorsWithin bound p

def depth (doc : Document) (id : NodeId) : Nat :=
  (doc.ancestorsWithin doc.size id).length

/-- The nodes below a node, at most `bound` levels down: first those directly below it, then what
is below each of these, the last of them first. -/
def descendantsWithin (doc : Document) : (bound : Nat) → NodeId → List NodeId
  | 0, _ => []
  | bound + 1, id =>
    doc.below id ++ (doc.below id).reverse.flatMap (doc.descendantsWithin bound)

def descendants (doc : Document) (id : NodeId) : List NodeId :=
  doc.descendantsWithin doc.size id

/-- The tree at a node, at most `bound` levels deep. -/
def treeWithin (doc : Document) : (bound : Nat) → NodeId → Option Tree
  | 0, _ => none
  | bound + 1, id =>
    (doc.get? id).map fun n ↦
      .mk n (n.attrs.filterMap doc.get?) (n.children.filterMap (doc.treeWithin bound))

/-- The document as a list of trees. -/
def forest (doc : Document) : List Tree :=
  doc.roots.filterMap (doc.treeWithin doc.size)

end Document

end StyledMarkup
