import StyledMarkup.Path
import StyledMarkup.Statement.Scan

/-!
# Why a source is refused

A parse error names what is wrong, and the statement at which it was noticed.
-/

namespace StyledMarkup

/-- What is wrong with a source. -/
inductive Fault where
  | unbalancedBraces
  | malformedMixin
  | malformedInclude
  | malformedImport
  /-- The text of an import cannot be had. -/
  | importNotFound (path : Path) (reason : String)
  /-- A file asks for a file that is being imported already. -/
  | importCycle (path : Path)
  /-- More imports are inside one another than the limit allows. -/
  | importDepthExceeded (limit : Nat)
  /-- The body of a mixin asks for that same mixin. -/
  | recursiveInclude (name : Text)
  /-- The value of an attribute is begun and never closed. -/
  | unterminatedAttribute (name : Text)
  | unterminatedString
  deriving DecidableEq, Repr

def Fault.message : Fault → String
  | .unbalancedBraces => "unbalanced braces"
  | .malformedMixin =>
    "malformed @mixin declaration, expected `@mixin name($param: default) \x7b`"
  | .malformedInclude =>
    "malformed @include directive, expected `@include name;` or `@include name(args);`"
  | .malformedImport => "malformed @import directive, expected `@import 'path';`"
  | .importNotFound path reason => s!"cannot import '{String.ofList path.text}': {reason}"
  | .importCycle path => s!"import cycle through '{String.ofList path.text}'"
  | .importDepthExceeded limit => s!"imports nested deeper than {limit} levels"
  | .recursiveInclude name => s!"mixin '{String.ofList name}' includes itself"
  | .unterminatedAttribute name =>
    s!"multi-line attribute '--{String.ofList name}' is never closed with `\";`"
  | .unterminatedString => "unterminated string"

/-- A fault and the statement at which it was noticed. -/
structure ParseError where
  fault : Fault
  line : Nat
  text : Text
  deriving DecidableEq, Repr

namespace ParseError

def message (e : ParseError) : String :=
  s!"Parse error at line {e.line} (`{String.ofList e.text}`): {e.fault.message}"

/-- A fault noticed at a statement. -/
def ofStatement (fault : Fault) (s : Statement) : ParseError :=
  ⟨fault, s.line, s.text⟩

/-- An error of cutting a text into statements. -/
def ofScan (e : ScanError) : ParseError :=
  ⟨.unterminatedString, e.line, e.text⟩

end ParseError

end StyledMarkup
