import StyledMarkup.Text.Basic

/-!
# Argument lists

Arguments are separated by commas outside quotes and parentheses and are trimmed. A backslash has
no meaning here: a quote is closed by the next quote of the same kind.
-/

namespace StyledMarkup.Arguments

/-- What is open at some point of an argument list. -/
structure Nesting where
  quote : Option Char := none
  depth : Nat := 0
  deriving DecidableEq, Repr

/-- A comma here separates two arguments. -/
def Nesting.isOutside (n : Nesting) : Bool :=
  n.quote.isNone && n.depth == 0

def Nesting.next (n : Nesting) (c : Char) : Nesting :=
  match n.quote with
  | some q => if c = q then { n with quote := none } else n
  | none =>
    if c = '"' ∨ c = '\'' then { n with quote := some c }
    else if c = '(' then { n with depth := n.depth + 1 }
    else if c = ')' then { n with depth := n.depth - 1 }
    else n

/-- The pieces between separating commas, as they are written; there is at least one. -/
def pieces (n : Nesting) : Text → List Text
  | [] => [[]]
  | c :: rest =>
    if n.isOutside && c == ',' then [] :: pieces n rest
    else
      match pieces (n.next c) rest with
      | [] => [[c]]
      | piece :: more => (c :: piece) :: more

/-- The arguments of a list. A blank list has none. -/
def split (t : Text) : List Text :=
  if Text.allBlank t then [] else (pieces {} t).map Text.trim

/-! ## Small facts -/

theorem pieces_ne_nil (n : Nesting) (t : Text) : pieces n t ≠ [] := by
  cases t with
  | nil => simp [pieces]
  | cons c rest =>
    simp only [pieces]
    split
    · simp
    · split <;> simp

end StyledMarkup.Arguments
