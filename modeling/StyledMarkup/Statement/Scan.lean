import StyledMarkup.Statement

/-!
# Cutting a source into statements

A source is read physical line by physical line, each trimmed first. Outside quotes and parentheses
a semicolon ends a statement and belongs to it, an opening brace ends a statement and belongs to
it, and a closing brace is a statement of its own. A comment runs to the end of its physical line.

A physical line that ends inside a statement is joined to the next one by a single space when a
quote or a parenthesis is open, when it ends in a comma, or when it holds a declaration whose value
has begun. Otherwise the end of the line ends the statement. A declaration whose value has not
begun ends with its line; its value is then collected where the forest is built.
-/

namespace StyledMarkup

/-- A source that ends inside a quoted string. The error names the line and the text of the
statement that was being read. -/
structure ScanError where
  line : Nat
  text : Text
  deriving DecidableEq, Repr

def ScanError.message (e : ScanError) : String :=
  s!"Lexer error at line {e.line}: Unterminated string"

/-- How far a source has been read. -/
structure Scan where
  /-- The finished statements, the latest first. -/
  finished : List Statement := []
  /-- The characters of the statement being read, the latest first. -/
  pending : Text := []
  /-- The physical line on which the statement being read starts. -/
  startLine : Nat := 0
  /-- The quote character that is open. -/
  quote : Option Char := none
  /-- The number of open parentheses. -/
  depth : Nat := 0
  deriving DecidableEq, Repr

namespace Scan

def text (s : Scan) : Text :=
  Text.trim s.pending.reverse

/-- Takes one more character of `line` into the statement being read. The statement starts on the
line of its first character that is not blank. -/
def push (s : Scan) (line : Nat) (c : Char) : Scan :=
  { s with
    startLine := if Text.allBlank s.pending then line else s.startLine
    pending := c :: s.pending }

/-- Ends the statement being read. Blanks and a lone semicolon are no statement. -/
def flush (s : Scan) : Scan :=
  if s.text = [] ∨ s.text = [';'] then { s with pending := [] }
  else { s with finished := ⟨s.text, s.startLine⟩ :: s.finished, pending := [] }

/-- The statement can take an opening brace that stands alone on the next line. -/
def takesBrace (s : Statement) : Bool :=
  !s.isComment && !s.text.endsWith ';' && !s.text.endsWith '{' && !s.text.endsWith '}'

/-- Ends a statement at an opening brace. A brace that stands alone joins the statement before it,
if that one can take it. -/
def flushOpener (s : Scan) : Scan :=
  match s.finished with
  | [] => s.flush
  | previous :: earlier =>
    if s.text = ['{'] ∧ takesBrace previous = true then
      { s with
        finished := ⟨previous.text ++ [' ', '{'], previous.line⟩ :: earlier
        pending := [] }
    else s.flush

/-- A quote right after a letter or digit is an apostrophe. -/
def followsWord (s : Scan) : Bool :=
  match s.pending with
  | [] => false
  | c :: _ => Text.isAlphanumeric c

/-- The character opens a quoted string. A single quote does so only when another one follows on
the same physical line. -/
def opensQuote (s : Scan) (c : Char) (rest : Text) : Bool :=
  !s.followsWord && (c == '"' || (c == '\'' && rest.contains '\''))

def startsComment (s : Scan) (c : Char) (rest : Text) : Bool :=
  Text.allBlank s.pending && Statement.commentMarker.isPrefixOf (c :: rest)

/-- Reads the comment that makes up the rest of a physical line. -/
def comment (s : Scan) (line : Nat) (text : Text) : Scan :=
  { s with
    finished := ⟨Text.trim text, line⟩ :: s.finished
    pending := []
    startLine := line }

/-- Reads a character outside quotes; `rest` is what follows it on its line. -/
def readPlain (s : Scan) (line : Nat) (c : Char) (rest : Text) : Scan :=
  if s.opensQuote c rest then { s.push line c with quote := some c }
  else if c = '(' then { s.push line c with depth := s.depth + 1 }
  else if c = ')' then { s.push line c with depth := s.depth - 1 }
  else if s.depth ≠ 0 then s.push line c
  else if c = ';' then (s.push line c).flush
  else if c = '{' then (s.push line c).flushOpener
  else if c = '}' then (s.flush.push line c).flush
  else s.push line c

/-- Reads the characters of one physical line. Inside quotes a backslash takes the next character
of the line along, whatever it is. -/
def readChars (line : Nat) : Text → Scan → Scan
  | [], s => s
  | c :: rest, s =>
    match s.quote with
    | some q =>
      if c = '\\' then
        match rest with
        | [] => s.push line c
        | escaped :: rest' => readChars line rest' ((s.push line c).push line escaped)
      else if c = q then readChars line rest { s.push line c with quote := none }
      else readChars line rest (s.push line c)
    | none =>
      if s.startsComment c rest then s.comment line (c :: rest)
      else readChars line rest (s.readPlain line c rest)

def isNameChar (c : Char) : Bool :=
  Text.isAlphanumeric c || c == '-' || c == '_' || c == '$'

/-- The text is a name, a colon and a value that has begun. Comments and directives are not. -/
def isDangling (t : Text) : Bool :=
  !Statement.commentMarker.isPrefixOf t && t.head? != some '@' &&
    !(t.takeWhile isNameChar).isEmpty &&
    match Text.trimStart (t.dropWhile isNameChar) with
    | ':' :: value => !Text.allBlank value
    | _ => false

/-- The statement being read goes on with the next physical line. -/
def isContinued (s : Scan) : Bool :=
  s.quote.isSome || s.depth != 0 || s.text.endsWith ',' || isDangling s.text

def endLine (s : Scan) : Scan :=
  if s.isContinued then
    if s.pending = [] then s else { s with pending := ' ' :: s.pending }
  else s.flush

def readLine (s : Scan) (line : Nat) (text : Text) : Scan :=
  (readChars line (Text.trim text) s).endLine

def finish (s : Scan) : Except ScanError (List Statement) :=
  if s.quote.isSome then .error ⟨s.startLine, s.text⟩
  else .ok s.flush.finished.reverse

end Scan

namespace Statement

/-- The statements of numbered physical lines. -/
def scanLines (lines : List (Nat × Text)) : Except ScanError (List Statement) :=
  (lines.foldl (fun s line ↦ s.readLine line.1 line.2) ({} : Scan)).finish

/-- The statements of a source, whose physical lines are numbered from one. -/
def scan (source : Text) : Except ScanError (List Statement) :=
  scanLines ((Text.lines source).zipIdx 1 |>.map Prod.swap)

end Statement

end StyledMarkup
