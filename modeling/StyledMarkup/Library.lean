import StyledMarkup.Path

/-!
# Where imports come from

Imports are read through a loader: any function from paths to a text or the reason why there is
none. A library is a collection of texts held under normal paths, and gives one such loader.
-/

namespace StyledMarkup

/-- Reads the text at a path, or says why it cannot. -/
abbrev Loader := Path → Except String Text

/-- Texts under their normal paths, the latest entry first. -/
structure Library where
  entries : List (Path × Text) := []
  deriving Repr

namespace Library

/-- Puts a text under a path. It hides an earlier one under the same normal path. -/
def insert (l : Library) (p : Path) (t : Text) : Library :=
  ⟨(p.normalize, t) :: l.entries⟩

/-- The library with these entries, inserted in order. -/
def ofList (entries : List (Path × Text)) : Library :=
  entries.foldl (fun l entry ↦ l.insert entry.1 entry.2) {}

def find? (l : Library) (p : Path) : Option Text :=
  l.entries.lookup p.normalize

def load (l : Library) : Loader := fun p ↦
  match l.find? p with
  | some t => .ok t
  | none => .error s!"no such file: {String.ofList p.text}"

end Library

end StyledMarkup
