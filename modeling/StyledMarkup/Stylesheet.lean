import StyledMarkup.Classification
import StyledMarkup.Render
import StyledMarkup.Variable

/-!
# The stylesheet

Every statement becomes a line, except for attributes, literal text and suppressed statements,
which are left out together with all that is below them.
-/

namespace StyledMarkup.Stylesheet

/-- The node and all that is below it are left out. -/
def isHidden (n : Node) : Bool :=
  n.suppressed || n.isAttribute || Classification.isTextMarker n.raw

/-- The line of a node. A closing brace stands at the level of the statement it closes. -/
def line (r : Resolver) (depth : Nat) (n : Node) : Except RenderError Text :=
  if n.isBlockClose then
    match depth with
    | 0 => .error (.strayClose n.line)
    | level + 1 => .ok (indent level ['}'])
  else .ok (indent depth (r.apply n.raw))

mutual

/-- The lines of a tree at some depth. -/
def emit (r : Resolver) (depth : Nat) : Tree → Except RenderError (List Text)
  | .mk n _ children =>
    if isHidden n then .ok []
    else do
      let own ← line r depth n
      let below ← emitAll r (depth + 1) children
      return own :: below

def emitAll (r : Resolver) (depth : Nat) : List Tree → Except RenderError (List Text)
  | [] => .ok []
  | t :: rest => do
    let first ← emit r depth t
    let more ← emitAll r depth rest
    return first ++ more

end

def render (r : Resolver) (doc : Document) : Except RenderError Text := do
  return joinLines (← emitAll r 0 doc.forest)

end StyledMarkup.Stylesheet
