import StyledMarkup.Value
import StyledMarkup.Vocabulary

/-!
# Classifying statements

A statement opens an HTML element, declares an HTML attribute, or is a generic line. Which
attributes count depends on the innermost open block. Attributes reach only the markup; of the
others only generic lines and element openers reach the stylesheet.
-/

namespace StyledMarkup

/-- The innermost open block. -/
inductive Scope where
  | root
  | element (tag : Text)
  /-- The body of a mixin, whose later surroundings are not known yet. -/
  | mixin
  /-- Any other block, such as a media query or a rule with a selector. -/
  | block
  deriving DecidableEq, Repr

inductive Classification where
  | element (tag : Text) (classes : Option Text)
  | attribute (name value : Text) (isEvent : Bool)
  | generic
  deriving DecidableEq, Repr

namespace Classification

/-! ## Elements -/

/-- The character can follow the tag of an element opener. -/
def endsTag (c : Char) : Bool :=
  c == '.' || c == '{' || Text.isBlank c

/-- The class names written after a tag, separated by spaces: `.a.b` gives `a b`. -/
def classes? (afterTag : Text) : Option Text :=
  match afterTag with
  | '.' :: chain =>
    let names := ((chain.takeWhile fun c ↦ !(Text.isBlank c || c == '{')).splitOn '.').filter
      fun name ↦ !name.isEmpty
    if names.isEmpty then none else some ([' '].intercalate names)
  | _ => none

/-- A known tag with its class names, when the statement starts with one. -/
def element? (t : Text) : Option Classification :=
  let tag := t.takeWhile Char.isAlphanum
  let rest := t.dropWhile Char.isAlphanum
  if Vocabulary.isTag tag && rest.head?.any endsTag then some (.element tag (classes? rest))
  else none

/-! ## Text markers -/

/-- The name that declares literal text inside an element. -/
def textMarker : Text := "--text".toList

def isTextMarker (t : Text) : Bool :=
  match Text.after? textMarker t with
  | some rest => (Text.trimStart rest).head? == some ':'
  | none => false

/-- The literal text that a statement declares. -/
def textContent? (t : Text) : Option Text :=
  if isTextMarker t then
    (Text.splitAt? ':' t).map fun parts ↦ Value.unescape (Value.extract parts.2)
  else none

/-! ## Attributes -/

def isAttributeChar (c : Char) : Bool :=
  c.isAlphanum || c == '-' || c == '_'

/-- The attribute may be declared in this scope. -/
def allowed (name : Text) (scope : Scope) : Bool :=
  Vocabulary.isGlobal name ||
    match scope with
    | .root | .mixin => Vocabulary.isElementAttribute name
    | .element tag => (Vocabulary.elementAttributes tag).contains name
    | .block => false

/-- A declaration of an attribute that the scope allows. -/
def attribute? (t : Text) (scope : Scope) : Option Classification :=
  match Text.after? "--".toList t with
  | none => none
  | some rest =>
    let name := rest.takeWhile isAttributeChar
    match Text.trimStart (rest.dropWhile isAttributeChar) with
    | ':' :: value =>
      if allowed name scope then
        some (.attribute name (Value.unescape (Value.extract value)) (Vocabulary.isEvent name))
      else none
    | _ => none

end Classification

/-- Classifies a statement against the innermost open block. -/
def Scope.classify (scope : Scope) (t : Text) : Classification :=
  match Classification.element? t with
  | some c => c
  | none =>
    if Classification.isTextMarker t then .generic
    else (Classification.attribute? t scope).getD .generic

end StyledMarkup
