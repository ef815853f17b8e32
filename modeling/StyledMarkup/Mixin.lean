import StyledMarkup.Document
import StyledMarkup.Token

/-!
# Mixins

A mixin is a node whose body can be fed again. Its body is read back from the document: the
statements below the node in order of creation, without the closing brace of the mixin itself and
without what an include inside the body produced. The include stays, so that it is expanded anew
with the arguments of its new place.

A registry holds the mixins that can be included. The first definition of a name stands.
-/

namespace StyledMarkup

/-- A mixin that can be included, and the node that holds its body. -/
structure Mixin where
  name : Text
  params : Params
  node : NodeId
  deriving DecidableEq, Repr

namespace Mixin

/-- The nodes that make up the body, in order of creation. -/
def body (m : Mixin) (doc : Document) : List Node :=
  let children := ((doc.get? m.node).map Node.children).getD []
  let ownClose := children.filter fun id ↦ (doc.get? id).any Node.isBlockClose
  (((doc.descendants m.node).filter fun id ↦ !ownClose.contains id).filterMap doc.get?).filter
      (fun n ↦ !n.expanded)
    |>.mergeSort fun a b ↦ a.sourceIndex ≤ b.sourceIndex

/-- The numbered statements of the body with every parameter token replaced. -/
def expand (m : Mixin) (doc : Document) (params : Params) : List (Nat × Text) :=
  (m.body doc).map fun n ↦ (n.line, Token.substitute (fun token ↦ params.lookup token) n.raw)

end Mixin

/-- The mixins that can be included, in order of registration. -/
structure Registry where
  mixins : List Mixin := []
  deriving DecidableEq, Repr

namespace Registry

def size (r : Registry) : Nat :=
  r.mixins.length

def names (r : Registry) : List Text :=
  r.mixins.map Mixin.name

def find? (r : Registry) (name : Text) : Option Mixin :=
  r.mixins.find? fun m ↦ m.name == name

/-- Adds a mixin, unless its name is taken. -/
def register? (r : Registry) (m : Mixin) : Option Registry :=
  if (r.find? m.name).isSome then none else some ⟨r.mixins ++ [m]⟩

/-- The registry after an attempt to add a mixin. -/
def register (r : Registry) (m : Mixin) : Registry :=
  (r.register? m).getD r

end Registry

end StyledMarkup
