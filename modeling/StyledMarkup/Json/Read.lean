import StyledMarkup.Json.Token

/-!
# Reading JSON

Tokens are read one by one. What is open at some point is a stack of unfinished arrays and objects,
so values may be nested to any depth.
-/

namespace StyledMarkup.Json

/-- An array or object whose next value is being read. What it has already is kept the latest
first. -/
inductive Frame where
  | array (items : List Value)
  | object (members : List (Spelling × Value)) (key : Spelling)

/-- What comes next. -/
inductive Reading where
  | value (stack : List Frame)
  | firstItem (stack : List Frame)
  /-- The first key of an object, or its end. -/
  | firstKey (stack : List Frame)
  | key (members : List (Spelling × Value)) (stack : List Frame)
  | colon (members : List (Spelling × Value)) (key : Spelling) (stack : List Frame)
  /-- What may follow a finished value. -/
  | after (finished : Value) (stack : List Frame)

namespace Reading

/-- Reads a token where a value may start. -/
def start (stack : List Frame) : Token → Option Reading
  | .scalar v => some (.after v stack)
  | .string spelling => some (.after (.string spelling) stack)
  | .openBracket => some (.firstItem stack)
  | .openBrace => some (.firstKey stack)
  | _ => none

def next : Reading → Token → Option Reading
  | .value stack, token => start stack token
  | .firstItem stack, .closeBracket => some (.after (.array []) stack)
  | .firstItem stack, token => start (.array [] :: stack) token
  | .firstKey stack, .closeBrace => some (.after (.object []) stack)
  | .firstKey stack, .string k => some (.colon [] k stack)
  | .key members stack, .string k => some (.colon members k stack)
  | .colon members k stack, .colon => some (.value (.object members k :: stack))
  | .after v (.array items :: stack), .comma => some (.value (.array (v :: items) :: stack))
  | .after v (.array items :: stack), .closeBracket =>
    some (.after (.array (v :: items).reverse) stack)
  | .after v (.object members k :: stack), .comma => some (.key ((k, v) :: members) stack)
  | .after v (.object members k :: stack), .closeBrace =>
    some (.after (.object ((k, v) :: members).reverse) stack)
  | _, _ => none

end Reading

/-- The value that a text spells, which has to be all of the text. -/
def read (t : Text) : Option Value := do
  match ← (← tokens t).foldlM Reading.next (.value []) with
  | .after v [] => some v
  | _ => none

end StyledMarkup.Json
