import StyledMarkup.Path

/-!
# File systems

A file system is a list of entries under their locations, together with a working directory. A
location gives the names from the root down; the root itself is always a directory.

Some things that file systems have are left out. There are no symbolic links, so every location is
reached by one sequence of names, and no hard links, so writing to one location changes no other.
Names are text: a name that is not UTF-8 cannot occur. Nothing fails for want of permission or space
or because of a faulty device, only for the reasons in `IoError`, which lie in the entries, the
path and the content.
-/

namespace StyledMarkup

/-- The names that lead from the root to an entry. -/
abbrev Location := List Text

abbrev Bytes := List UInt8

inductive Entry where
  | directory
  | file (content : Bytes)
  deriving DecidableEq, Repr, Inhabited

/-- Why something cannot be done with a path. -/
inductive IoError where
  | notFound
  | fileExists
  | notDirectory
  | isDirectory
  /-- The content is not UTF-8. -/
  | notText
  /-- The path has more bytes than a path can have. -/
  | nameTooLong
  deriving DecidableEq, Repr

def IoError.message : IoError → String
  | .notFound => "No such file or directory (os error 2)"
  | .fileExists => "File exists (os error 17)"
  | .notDirectory => "Not a directory (os error 20)"
  | .isDirectory => "Is a directory (os error 21)"
  | .notText => "stream did not contain valid UTF-8"
  | .nameTooLong => "File name too long (os error 36)"

/-- Entries under their locations and a working directory. -/
structure FileSystem where
  entries : List (Location × Entry)
  workingDirectory : Location
  deriving DecidableEq, Repr

/-! ## Order of names -/

/-- Names are ordered by the code points of their characters. -/
def Text.le : Text → Text → Bool
  | [], _ => true
  | _ :: _, [] => false
  | a :: s, b :: t => if a = b then Text.le s t else a.toNat < b.toNat

/-- Locations are ordered name by name, so a directory stands right before what is inside it. -/
def Location.le : Location → Location → Bool
  | [], _ => true
  | _ :: _, [] => false
  | a :: s, b :: t => if a = b then Location.le s t else Text.le a b

namespace FileSystem

/-- A file system with nothing but an empty working directory below the root. -/
def empty : FileSystem :=
  ⟨[(["site".toList], .directory)], ["site".toList]⟩

def get? (fs : FileSystem) (loc : Location) : Option Entry :=
  if loc = [] then some .directory else fs.entries.lookup loc

/-- Puts an entry at a location, in place of an earlier one. -/
def set (fs : FileSystem) (loc : Location) (e : Entry) : FileSystem :=
  { fs with entries := (loc, e) :: fs.entries.filter fun entry ↦ entry.1 != loc }

/-- Everything below a location, by what its location has after `loc`, in order. -/
def below (fs : FileSystem) (loc : Location) : List (Location × Entry) :=
  (fs.entries.filterMap fun (l, e) ↦
      if loc.isPrefixOf l && loc.length < l.length then some (l.drop loc.length, e) else none)
    |>.mergeSort fun a b ↦ Location.le a.1 b.1

/-- Puts an entry under these names below `loc` and makes the directories on the way to it. -/
def putBelow (fs : FileSystem) (loc : Location) (e : Entry) : Location → FileSystem
  | [] => fs
  | [name] => fs.set (loc ++ [name]) e
  | name :: more =>
    let way := loc ++ [name]
    let fs := if (fs.get? way).isSome then fs else fs.set way .directory
    fs.putBelow way e more

/-- Puts an entry under these names below the working directory. -/
def put (fs : FileSystem) (names : Location) (e : Entry) : FileSystem :=
  fs.putBelow fs.workingDirectory e names

/-- What is below the working directory of `after` and not there or different in `before`. -/
def changes (before after : FileSystem) : List (Location × Entry) :=
  (after.below after.workingDirectory).filter fun (names, e) ↦
    before.get? (before.workingDirectory ++ names) != some e

/-! ## Small facts -/

@[simp] theorem get?_set_self (fs : FileSystem) {loc : Location} (h : loc ≠ []) (e : Entry) :
    (fs.set loc e).get? loc = some e := by
  simp [get?, set, h]

theorem lookup_filter_ne (l : List (Location × Entry)) {loc other : Location} (h : other ≠ loc) :
    (l.filter fun entry ↦ entry.1 != loc).lookup other = l.lookup other := by
  induction l with
  | nil => rfl
  | cons head tail ih =>
    obtain ⟨key, value⟩ := head
    by_cases hk : key = loc
    · have ho : (other == loc) = false := by simpa using h
      simp [List.lookup_cons, hk, ho, ih]
    · simp [List.lookup_cons, hk, ih]

theorem get?_set_of_ne (fs : FileSystem) {loc other : Location} (h : other ≠ loc) (e : Entry) :
    (fs.set loc e).get? other = fs.get? other := by
  have hb : (other == loc) = false := by simpa using h
  simp [get?, set, List.lookup_cons, hb, lookup_filter_ne _ h]

end FileSystem

end StyledMarkup
