import StyledMarkup.Text.Basic

/-!
# Statements

A source is a sequence of statements: an opener that ends in an opening brace, a declaration that
ends in a semicolon, a lone closing brace, or a comment. Each remembers the physical line of its
first character, counted from one.
-/

namespace StyledMarkup

/-- One statement and the physical line it starts on. -/
structure Statement where
  text : Text
  line : Nat
  deriving DecidableEq, Repr, Inhabited

namespace Statement

/-- The two characters that start a comment. -/
def commentMarker : Text := "//".toList

def isComment (s : Statement) : Bool :=
  commentMarker.isPrefixOf s.text

def opens (s : Statement) : Bool :=
  s.text.endsWith '{'

/-- The statement is a lone closing brace. -/
def closes (s : Statement) : Bool :=
  s.text == ['}']

end Statement

end StyledMarkup
