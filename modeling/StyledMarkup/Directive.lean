import StyledMarkup.Directive.Arguments

/-!
# Directives

Three statements steer the building of a document: `@mixin name($p: default, …) {` starts the
definition of a mixin, `@include name(argument, …);` asks for its body, and `@import 'path';` asks
for the statements of another file. This module recognises and reads their texts.
-/

namespace StyledMarkup

/-- Parameters with their values, in order of declaration. Each name includes its dollar sign. -/
abbrev Params := List (Text × Text)

structure MixinHeader where
  name : Text
  params : Params
  deriving DecidableEq, Repr

/-- A request for the body of a mixin. There are no arguments at all without parentheses. -/
structure Include where
  name : Text
  args : Option (List Text)
  deriving DecidableEq, Repr

namespace Directive

/-- The text starts with this keyword as a whole word. -/
def hasKeyword (keyword t : Text) : Bool :=
  match Text.after? keyword t with
  | some [] => true
  | some (c :: _) => Text.isBlank c || c == '(' || c == ';'
  | none => false

def mixinKeyword : Text := "@mixin".toList

def includeKeyword : Text := "@include".toList

def importKeyword : Text := "@import".toList

def isMixin (t : Text) : Bool :=
  hasKeyword mixinKeyword t

def isInclude (t : Text) : Bool :=
  hasKeyword includeKeyword t

def isImport (t : Text) : Bool :=
  match Text.after? importKeyword t with
  | some (c :: _) => Text.isBlank c || c == '\'' || c == '"'
  | _ => false

/-- The name of a mixin: letters, digits, hyphens and underscores. -/
def isName (name : Text) : Bool :=
  !name.isEmpty && name.all fun c ↦ Text.isAlphanumeric c || c == '-' || c == '_'

/-- One parameter declaration: `$name: default`. -/
def param? (t : Text) : Option (Text × Text) :=
  match Text.splitAt? ':' t with
  | none => none
  | some (before, default) =>
    let key := Text.trim before
    if key.head? = some '$' ∧ 2 ≤ key.length then some (key, Text.trim default) else none

/-- The name before the first parenthesis and the text between that parenthesis and the one that
ends `t`. -/
def call? (t : Text) : Option (Text × Text) :=
  match Text.splitAt? '(' t with
  | none => none
  | some (name, rest) => (Text.before? [')'] rest).map fun inner ↦ (Text.trim name, inner)

def mixin? (t : Text) : Option MixinHeader := do
  let rest ← Text.after? mixinKeyword t
  let rest ← Text.before? ['{'] (Text.trim rest)
  let (name, inner) ← call? (Text.trimEnd rest)
  if isName name then
    let params ← (Arguments.split inner).mapM param?
    some ⟨name, params⟩
  else none

/-- Reads a request for a mixin. The semicolon may be missing. -/
def include? (t : Text) : Option Include := do
  let rest ← Text.after? includeKeyword t
  let rest := Text.trimEnd (Text.dropTail [';'] (Text.trim rest))
  let (name, args) ←
    if rest.contains '(' then (call? rest).map fun call ↦ (call.1, some (Arguments.split call.2))
    else some (rest, none)
  if isName name then some ⟨name, args⟩ else none

/-- Reads the path of a request for a file: it is quoted on both sides by one kind of quote. -/
def importTarget? (t : Text) : Option Text := do
  let rest ← Text.after? importKeyword t
  match Text.trimEnd (Text.dropTail [';'] (Text.trim rest)) with
  | [] => none
  | quote :: rest =>
    if quote = '\'' ∨ quote = '"' then
      let path := Text.trim (← Text.before? [quote] rest)
      if path = [] then none else some path
    else none

/-- The argument that keeps the declared value of its parameter. -/
def defaultKeyword : Text := "default".toList

/-- The value of a parameter, given its argument if there is one. -/
def argumentOr (declared : Text) : Option Text → Text
  | none => declared
  | some arg =>
    let arg := Text.trim arg
    if arg = [] ∨ arg = defaultKeyword then declared else arg

/-- The parameters with arguments applied by position. -/
def bindArguments : Params → List Text → Params
  | [], _ => []
  | (name, declared) :: more, args =>
    (name, argumentOr declared args.head?) :: bindArguments more args.tail

/-- The parameters with the arguments of an include applied. -/
def resolveParams (params : Params) (args : Option (List Text)) : Params :=
  bindArguments params (args.getD [])

end Directive

end StyledMarkup
