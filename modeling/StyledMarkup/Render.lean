import StyledMarkup.Text.Basic

/-!
# What both renderings share

Both outputs are made of lines that are indented by the depth of their nodes. A document that is
built from statements can always be rendered; the errors are for documents that are put together
node by node.
-/

namespace StyledMarkup

/-- What is wrong with a document. -/
inductive RenderError where
  /-- An element is opened and not closed. -/
  | unclosedElement (tag : Text) (line : Nat)
  /-- A closing brace stands outside every block. -/
  | strayClose (line : Nat)
  deriving DecidableEq, Repr

def RenderError.message : RenderError → String
  | .unclosedElement tag line =>
    s!"Codegen error: element <{String.ofList tag}> opened at line {line} has no closing brace"
  | .strayClose line => s!"Codegen error: closing brace at line {line} has no open block"

/-- A line of output, indented by four spaces for each level. -/
def indent (level : Nat) (t : Text) : Text :=
  List.replicate (4 * level) ' ' ++ t

/-- The lines of an output put together. -/
def joinLines (lines : List Text) : Text :=
  ['\n'].intercalate lines

end StyledMarkup
