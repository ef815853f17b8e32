import StyledMarkup.Text.Hex

/-!
# Declared values

The value of a declaration is what stands between its colon and its terminating semicolon.
`Value.extract` finds that part and `Value.unescape` turns its spelling into the characters it
denotes. Both also serve the pieces of a value that is spread over several statements, so the two
surrounding quotes are dropped independently of each other.
-/

namespace StyledMarkup.Value

/-! ## Finding the value -/

/-- Where a reader of a value stands: outside double quotes, inside them, or inside them right
after a backslash. -/
inductive Position where
  | plain
  | quoted
  | escaped
  deriving DecidableEq, Repr

def Position.next : Position → Char → Position
  | .plain, '"' => .quoted
  | .plain, _ => .plain
  | .quoted, '\\' => .escaped
  | .quoted, '"' => .plain
  | .quoted, _ => .quoted
  | .escaped, _ => .quoted

/-- The part before the last semicolon that stands outside double quotes, when reading starts at
the given position. -/
def beforeTerminator? : Position → Text → Option Text
  | _, [] => none
  | p, c :: rest =>
    match beforeTerminator? (p.next c) rest with
    | some before => some (c :: before)
    | none => if p = .plain ∧ c = ';' then some [] else none

/-- The value of a declaration, given what follows its colon: everything before the last semicolon
outside double quotes, trimmed. When the text ends inside double quotes it is the last piece of a
longer value or lacks its end; then only a semicolon that ends the text right after a quote is
dropped. -/
def extract (afterColon : Text) : Text :=
  let stop :=
    if afterColon.foldl Position.next .plain = .plain then beforeTerminator? .plain afterColon
    else (Text.before? "\";".toList (Text.trimEnd afterColon)).map (· ++ ['"'])
  Text.trim (stop.getD afterColon)

/-! ## Reading the spelling -/

/-- The character with this code point. Surrogates are no characters. -/
def charOfCode? (n : Nat) : Option Char :=
  if n.isValidChar then some (Char.ofNat n) else none

def hexChar? (a b c d : Char) : Option Char :=
  (Text.hexUnit? a b c d).bind charOfCode?

/-- Replaces each escape by the character it denotes. A backslash that starts no known escape
stays as it is, and so does an incomplete code point. -/
def decode : Text → Text
  | '\\' :: '"' :: rest => '"' :: decode rest
  | '\\' :: '\\' :: rest => '\\' :: decode rest
  | '\\' :: '/' :: rest => '/' :: decode rest
  | '\\' :: 'n' :: rest => '\n' :: decode rest
  | '\\' :: 't' :: rest => '\t' :: decode rest
  | '\\' :: 'r' :: rest => '\r' :: decode rest
  | '\\' :: 'u' :: a :: b :: c :: d :: rest =>
    match hexChar? a b c d with
    | some x => x :: decode rest
    | none => '\\' :: 'u' :: decode (a :: b :: c :: d :: rest)
  | '\\' :: x :: rest => '\\' :: x :: decode rest
  | x :: rest => x :: decode rest
  | [] => []

/-- The text without a double quote at its start and without one at its end. -/
def unquote (value : Text) : Text :=
  Text.dropTail ['"'] (Text.dropHead ['"'] value)

/-- What a written value denotes. -/
def unescape (value : Text) : Text :=
  decode (unquote value)

end StyledMarkup.Value
