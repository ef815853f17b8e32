import StyledMarkup.Json.Value
import StyledMarkup.Text.Hex

/-!
# Cutting JSON into tokens

Blanks between tokens are spaces, tabs, newlines and carriage returns. A string may not contain
control characters. A number has no leading zeros, and digits on both sides of its point.
-/

namespace StyledMarkup.Json

inductive Token where
  | openBrace
  | closeBrace
  | openBracket
  | closeBracket
  | colon
  | comma
  | string (spelling : Spelling)
  /-- A token that is a value by itself, a string apart. -/
  | scalar (value : Value)
  deriving Repr

/-! ## Strings -/

/-- The character that a backslash and a letter denote. -/
def escape? : Char → Option Char
  | '"' => some '"'
  | '\\' => some '\\'
  | '/' => some '/'
  | 'b' => some '\x08'
  | 'f' => some '\x0c'
  | 'n' => some '\n'
  | 'r' => some '\r'
  | 't' => some '\t'
  | _ => none

/-- Reads a string after its opening quote, and gives what follows its closing quote. -/
def readString : Text → Option (Spelling × Text)
  | [] => none
  | '"' :: rest => some ([], rest)
  | '\\' :: 'u' :: a :: b :: c :: d :: rest =>
    match Text.hexUnit? a b c d, readString rest with
    | some n, some (spelling, after) => some (.unit n :: spelling, after)
    | _, _ => none
  | '\\' :: e :: rest =>
    match escape? e, readString rest with
    | some c, some (spelling, after) => some (.char c :: spelling, after)
    | _, _ => none
  | c :: rest =>
    if c.toNat < 0x20 ∨ c = '\\' then none
    else
      match readString rest with
      | some (spelling, after) => some (.char c :: spelling, after)
      | none => none

theorem readString_shorter {t after : Text} {spelling : Spelling}
    (h : readString t = some (spelling, after)) : after.length < t.length := by
  fun_induction readString t generalizing spelling after with
  | case1 | case4 | case6 | case7 | case9 => cases h
  | case2 => cases h; simp
  | case3 _ _ _ _ _ _ _ _ hrest _ ih =>
    cases h
    have := ih hrest
    simp only [List.length_cons]
    omega
  | case5 _ _ _ _ _ _ hrest _ ih =>
    cases h
    have := ih hrest
    simp only [List.length_cons]
    omega
  | case8 _ _ _ _ _ _ _ _ hrest ih =>
    cases h
    have := ih hrest
    simp only [List.length_cons]
    omega

/-! ## Numbers and words -/

def naturalOf (digits : Text) : Nat :=
  digits.foldl (fun n c ↦ n * 10 + (c.toNat - '0'.toNat)) 0

/-- A number may go on with these characters. -/
def isNumberChar (c : Char) : Bool :=
  c.isDigit || c == '-' || c == '+' || c == '.' || c == 'e' || c == 'E'

def isDigits (t : Text) : Bool :=
  !t.isEmpty && t.all Char.isDigit

/-- An integer part: digits without a leading zero. -/
def isInteger (t : Text) : Bool :=
  isDigits t && (t.length == 1 || t.head? != some '0')

/-- The part of a number after its integer part: a fraction, an exponent, both or nothing. -/
def isTail (t : Text) : Bool :=
  let (fraction, exponent) := t.span fun c ↦ c != 'e' && c != 'E'
  let fractionOk :=
    match fraction with
    | [] => true
    | '.' :: digits => isDigits digits
    | _ => false
  let exponentOk :=
    match exponent with
    | [] => true
    | _ :: '+' :: digits => isDigits digits
    | _ :: '-' :: digits => isDigits digits
    | _ :: digits => isDigits digits
  fractionOk && exponentOk

/-- Reads a number from the characters that make it up. -/
def number? (literal : Text) : Option Value :=
  let unsigned := Text.dropHead ['-'] literal
  let digits := unsigned.takeWhile Char.isDigit
  let tail := unsigned.dropWhile Char.isDigit
  if isInteger digits && isTail tail then
    some (.number (if literal = digits then some (naturalOf digits) else none))
  else none

def word? (letters : Text) : Option Value :=
  if letters = "null".toList then some .null
  else if letters = "true".toList then some (.bool true)
  else if letters = "false".toList then some (.bool false)
  else none

/-! ## Tokens -/

def isGap (c : Char) : Bool :=
  c == ' ' || c == '\t' || c == '\n' || c == '\r'

def punctuation? : Char → Option Token
  | '\x7b' => some .openBrace
  | '\x7d' => some .closeBrace
  | '[' => some .openBracket
  | ']' => some .closeBracket
  | ':' => some .colon
  | ',' => some .comma
  | _ => none

/-- Reads one token at a character that is not a gap, and gives what follows the token. -/
def readToken (c : Char) (rest : Text) : Option (Token × Text) :=
  match punctuation? c with
  | some token => some (token, rest)
  | none =>
    if c = '"' then (readString rest).map fun (spelling, after) ↦ (.string spelling, after)
    else if isNumberChar c then
      (number? (c :: rest.takeWhile isNumberChar)).map fun value ↦
        (.scalar value, rest.dropWhile isNumberChar)
    else
      (word? (c :: rest.takeWhile Char.isAlpha)).map fun value ↦
        (.scalar value, rest.dropWhile Char.isAlpha)

theorem readToken_not_longer {c : Char} {rest after : Text} {token : Token}
    (h : readToken c rest = some (token, after)) : after.length ≤ rest.length := by
  unfold readToken at h
  split at h
  · cases h; exact Nat.le_refl _
  · split at h
    · obtain ⟨⟨spelling, after'⟩, hread, heq⟩ := Option.map_eq_some_iff.1 h
      cases heq
      exact Nat.le_of_lt (readString_shorter hread)
    · split at h
      · obtain ⟨_, _, heq⟩ := Option.map_eq_some_iff.1 h
        cases heq
        exact (List.dropWhile_sublist _).length_le
      · obtain ⟨_, _, heq⟩ := Option.map_eq_some_iff.1 h
        cases heq
        exact (List.dropWhile_sublist _).length_le

def tokens : Text → Option (List Token)
  | [] => some []
  | c :: rest =>
    if isGap c then tokens rest
    else
      match _h : readToken c rest with
      | none => none
      | some (token, after) => (tokens after).map (token :: ·)
termination_by t => t.length
decreasing_by
  · simp
  · have := readToken_not_longer ‹_›
    simp only [List.length_cons]
    omega

end StyledMarkup.Json
