import StyledMarkup.Text.Basic

/-!
# Replacing `$name` tokens

A token is a dollar sign followed by the longest run of letters, digits, underscores and hyphens,
so `$w` is never found inside `$width`. Parameters of mixins and variables are both written as
tokens. What is put in place of a token is not searched again.
-/

namespace StyledMarkup.Token

def isTokenChar (c : Char) : Bool :=
  Text.isAlphanumeric c || c == '_' || c == '-'

/-- What a dollar sign followed by `name` becomes. A lone dollar sign is no token. -/
def replacement (lookup : Text → Option Text) (name : Text) : Text :=
  if name = [] then ['$'] else (lookup ('$' :: name)).getD ('$' :: name)

/-- The text with every token that `lookup` knows replaced. The token is looked up with its dollar
sign. -/
def substitute (lookup : Text → Option Text) : Text → Text
  | [] => []
  | c :: rest =>
    if c = '$' then
      replacement lookup (rest.takeWhile isTokenChar) ++
        substitute lookup (rest.dropWhile isTokenChar)
    else c :: substitute lookup rest
termination_by t => t.length
decreasing_by
  · have := (List.dropWhile_sublist (l := rest) isTokenChar).length_le
    grind
  · grind

/-! ## Small facts -/

@[simp] theorem substitute_nil (lookup : Text → Option Text) : substitute lookup [] = [] := by
  simp [substitute]

theorem substitute_cons_of_ne (lookup : Text → Option Text) {c : Char} (h : c ≠ '$') (rest : Text) :
    substitute lookup (c :: rest) = c :: substitute lookup rest := by
  simp [substitute, h]

theorem substitute_dollar (lookup : Text → Option Text) (rest : Text) :
    substitute lookup ('$' :: rest) =
      replacement lookup (rest.takeWhile isTokenChar) ++
        substitute lookup (rest.dropWhile isTokenChar) := by
  simp [substitute]

end StyledMarkup.Token
