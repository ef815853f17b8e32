import StyledMarkup.Text.Basic

/-!
# JSON values

Strings are kept as they are spelled: an escape may give half of a surrogate pair, and whether that
matters depends on whether anybody asks for the text. Of numbers only the value of a plain natural
number is kept.
-/

namespace StyledMarkup.Json

/-- One character of a string, or the code unit of an escape. -/
inductive Piece where
  | char (c : Char)
  | unit (n : Nat)
  deriving DecidableEq, Repr

/-- The spelling of a string. -/
abbrev Spelling := List Piece

inductive Value where
  | null
  | bool (b : Bool)
  /-- A number, with its value if it is written as digits only. -/
  | number (natural : Option Nat)
  | string (spelling : Spelling)
  | array (items : List Value)
  | object (members : List (Spelling × Value))
  deriving Repr, Inhabited

def isHigh (n : Nat) : Bool :=
  0xD800 ≤ n && n ≤ 0xDBFF

def isLow (n : Nat) : Bool :=
  0xDC00 ≤ n && n ≤ 0xDFFF

/-- The text of a string. There is none if half of a surrogate pair stands alone. -/
def Spelling.text? : Spelling → Option Text
  | [] => some []
  | .char c :: rest => (Spelling.text? rest).map (c :: ·)
  | .unit high :: .unit low :: rest =>
    if isHigh high then
      if isLow low then
        let code := 0x10000 + (high - 0xD800) * 0x400 + (low - 0xDC00)
        (Spelling.text? rest).map (Char.ofNat code :: ·)
      else none
    else if isLow high then none
    else (Spelling.text? (.unit low :: rest)).map (Char.ofNat high :: ·)
  | .unit n :: rest =>
    if isHigh n || isLow n then none else (Spelling.text? rest).map (Char.ofNat n :: ·)

end StyledMarkup.Json
