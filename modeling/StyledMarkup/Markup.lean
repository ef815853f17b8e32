import StyledMarkup.Classification
import StyledMarkup.Render
import StyledMarkup.Variable

/-!
# The HTML fragment

Elements, their attributes and literal text are rendered. Other statements give no markup, but what
is below them is rendered all the same. An element that opens a block stays open until a closing
brace one level below it.
-/

namespace StyledMarkup.Markup

/-! ## Tags -/

/-- Sets an attribute, keeping the place of its first declaration. A further value of an event
handler is added to the values before it, unless these are empty; any other attribute takes the
last value. -/
def setAttribute (name value : Text) (isEvent : Bool) : List (Text × Text) → List (Text × Text)
  | [] => [(name, value)]
  | (other, current) :: rest =>
    if other = name then
      (other, if isEvent && !current.isEmpty then current ++ ' ' :: value else value) :: rest
    else (other, current) :: setAttribute name value isEvent rest

/-- Takes the declaration of an attribute into account. The opening of a value that stands in later
statements has no value itself. -/
def declare (r : Resolver) (attrs : List (Text × Text)) (n : Node) : List (Text × Text) :=
  match n.kind with
  | .attribute name value isEvent multilineOpen =>
    if multilineOpen || n.suppressed then attrs
    else setAttribute name (r.apply value) isEvent attrs
  | _ => attrs

/-- The attributes of an element with their values: its class names, then what its attribute nodes
declare. -/
def attributes (r : Resolver) (classes : Option Text) (nodes : List Node) : List (Text × Text) :=
  nodes.foldl (declare r) (classes.toList.map fun names ↦ ("class".toList, r.apply names))

/-- A value without double quotes. -/
def escape (value : Text) : Text :=
  value.flatMap fun c ↦ if c = '"' then "&quot;".toList else [c]

/-- One attribute inside a tag. -/
def attributeText (attr : Text × Text) : Text :=
  ' ' :: attr.1 ++ "=\"".toList ++ escape attr.2 ++ ['"']

def openTag (tag : Text) (attrs : List (Text × Text)) : Text :=
  '<' :: tag ++ attrs.flatMap attributeText ++ ['>']

def closeTag (tag : Text) : Text :=
  "</".toList ++ tag ++ ['>']

/-! ## Walking a document -/

/-- An element that is waiting for its closing brace. -/
structure OpenElement where
  tag : Text
  depth : Nat
  line : Nat
  deriving DecidableEq, Repr

/-- What has been rendered so far. -/
structure Progress where
  /-- The finished lines, the latest first. -/
  lines : List Text := []
  /-- The open elements, the innermost first. -/
  openElements : List OpenElement := []
  deriving DecidableEq, Repr

namespace Progress

def push (p : Progress) (depth : Nat) (t : Text) : Progress :=
  { p with lines := indent depth t :: p.lines }

def element (p : Progress) (depth : Nat) (n : Node) (tag : Text) (attrs : List (Text × Text)) :
    Progress :=
  if Text.endsWith (Text.trimEnd n.raw) '{' then
    let p := p.push depth (openTag tag attrs)
    { p with openElements := ⟨tag, depth, n.line⟩ :: p.openElements }
  else if Vocabulary.isVoid tag then p.push depth (openTag tag attrs)
  else p.push depth (openTag tag attrs ++ closeTag tag)

/-- Renders a closing brace: it closes the innermost open element if that is one level above. -/
def close (p : Progress) (depth : Nat) : Progress :=
  match p.openElements with
  | [] => p
  | top :: outer =>
    if top.depth + 1 = depth then
      let p := { p with openElements := outer }
      if Vocabulary.isVoid top.tag then p else p.push top.depth (closeTag top.tag)
    else p

/-- Renders a statement that is neither an element nor an attribute. -/
def statement (r : Resolver) (p : Progress) (depth : Nat) (n : Node) : Progress :=
  if n.isBlockClose then p.close depth
  else if Classification.isTextMarker n.raw then
    match Classification.textContent? (r.apply n.raw) with
    | some t => p.push depth t
    | none => p
  else p

end Progress

mutual

/-- Renders a tree at some depth. -/
def walk (r : Resolver) (depth : Nat) (p : Progress) : Tree → Progress
  | .mk n attrs children =>
    if n.suppressed then p
    else
      match n.kind with
      | .attribute .. => p
      | .element tag classes =>
        walkAll r (depth + 1) (p.element depth n tag (attributes r classes attrs)) children
      | _ => walkAll r (depth + 1) (p.statement r depth n) children

def walkAll (r : Resolver) (depth : Nat) (p : Progress) : List Tree → Progress
  | [] => p
  | t :: rest => walkAll r depth (walk r depth p t) rest

end

def render (r : Resolver) (doc : Document) : Except RenderError Text :=
  let p := walkAll r 0 {} doc.forest
  match p.openElements with
  | top :: _ => .error (.unclosedElement top.tag top.line)
  | [] => .ok (joinLines p.lines.reverse)

end StyledMarkup.Markup
