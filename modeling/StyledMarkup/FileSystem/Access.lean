import StyledMarkup.FileSystem.Basic
import StyledMarkup.Library

/-!
# Reading and writing files

A path is followed segment by segment: everything but its end has to be a directory, empty segments
and single dots stay there, and double dots go up, where the root is above itself.
-/

namespace StyledMarkup

def Text.encode (t : Text) : Bytes :=
  (String.ofList t).toUTF8.data.toList

def Text.decode? (content : Bytes) : Option Text :=
  (String.fromUTF8? ⟨content.toArray⟩).map String.toList

namespace FileSystem

/-! ## Following paths -/

/-- Where following a path starts. -/
def start (fs : FileSystem) (p : Path) : Location :=
  if p.isAbsolute then [] else fs.workingDirectory

def enter (fs : FileSystem) (loc : Location) (segment : Text) : Except IoError Location :=
  match fs.get? loc with
  | none => .error .notFound
  | some (.file _) => .error .notDirectory
  | some .directory =>
    if Path.isIdle segment then .ok loc
    else if segment = ['.', '.'] then .ok loc.dropLast
    else if (fs.get? (loc ++ [segment])).isSome then .ok (loc ++ [segment])
    else .error .notFound

def walk (fs : FileSystem) : Location → List Text → Except IoError Location
  | loc, [] => .ok loc
  | loc, segment :: rest =>
    match fs.enter loc segment with
    | .error e => .error e
    | .ok next => fs.walk next rest

/-- The location of an entry that exists. The empty path leads nowhere. -/
def locate (fs : FileSystem) (p : Path) : Except IoError Location :=
  if p.text = [] then .error .notFound else fs.walk (fs.start p) (p.text.splitOn '/')

/-- What a path leads to. -/
def find? (fs : FileSystem) (p : Path) : Option Entry :=
  match fs.locate p with
  | .ok loc => fs.get? loc
  | .error _ => none

def exists? (fs : FileSystem) (p : Path) : Bool :=
  (fs.find? p).isSome

def isDirectory (fs : FileSystem) (p : Path) : Bool :=
  fs.find? p == some .directory

/-! ## Reading -/

def readBytes (fs : FileSystem) (p : Path) : Except IoError Bytes :=
  match fs.locate p with
  | .error e => .error e
  | .ok loc =>
    match fs.get? loc with
    | some (.file content) => .ok content
    | some .directory => .error .isDirectory
    | none => .error .notFound

def readText (fs : FileSystem) (p : Path) : Except IoError Text :=
  match fs.readBytes p with
  | .error e => .error e
  | .ok content =>
    match Text.decode? content with
    | some t => .ok t
    | none => .error .notText

/-- Loads imports from files. -/
def load (fs : FileSystem) : Loader := fun p ↦
  (fs.readText p).mapError IoError.message

def locateDirectory (fs : FileSystem) (p : Path) : Except IoError Location :=
  match fs.locate p with
  | .error e => .error e
  | .ok loc => fs.enter loc []

/-- The entries directly inside a directory, in the order of their names. -/
def list (fs : FileSystem) (p : Path) : Except IoError (List (Text × Entry)) :=
  (fs.locateDirectory p).map fun loc ↦
    (fs.below loc).filterMap fun (names, e) ↦
      match names with
      | [name] => some (name, e)
      | _ => none

/-! ## Writing -/

/-- The directory that the last of these segments is looked up in, given the segments before it. -/
def containing (fs : FileSystem) (p : Path) (before : List Text) : Except IoError Location :=
  fs.walk (fs.start p) (before ++ [[]])

/-- Makes a directory. Slashes at the end do not matter. -/
def makeDirectory (fs : FileSystem) (p : Path) : Except IoError FileSystem :=
  match (p.text.splitOn '/').reverse.dropWhile List.isEmpty with
  | [] => .error (if p.text = [] then .notFound else .fileExists)
  | last :: before =>
    match fs.containing p before.reverse with
    | .error e => .error e
    | .ok loc =>
      if last = ['.'] ∨ last = ['.', '.'] ∨ (fs.get? (loc ++ [last])).isSome = true then
        .error .fileExists
      else .ok (fs.set (loc ++ [last]) .directory)

/-- Makes the first of these paths a directory, making those after it first if it has nowhere to
go. What has been made stays when the rest fails. -/
def makeChain (fs : FileSystem) : List Path → Except IoError Unit × FileSystem
  | [] => (.ok (), fs)
  | p :: above =>
    if p.text = [] then (.ok (), fs)
    else
      match fs.makeDirectory p with
      | .ok made => (.ok (), made)
      | .error .notFound =>
        match fs.makeChain above with
        | (.error e, made) => (.error e, made)
        | (.ok _, made) =>
          match made.makeDirectory p with
          | .ok made => (.ok (), made)
          | .error e => (if made.isDirectory p then .ok () else .error e, made)
      | .error e => (if fs.isDirectory p then .ok () else .error e, fs)

/-- Makes a directory and the directories on the way to it, unless it is there. -/
def makeDirectories (fs : FileSystem) (p : Path) : Except IoError Unit × FileSystem :=
  fs.makeChain p.ancestors

/-- Writes a file, in place of an earlier one. -/
def writeFile (fs : FileSystem) (p : Path) (content : Bytes) : Except IoError FileSystem :=
  match (p.text.splitOn '/').reverse with
  | [] => .error .notFound
  | last :: before =>
    if p.text = [] then .error .notFound
    else
      match fs.containing p before.reverse with
      | .error e => .error e
      | .ok loc =>
        if Path.isIdle last = true ∨ last = ['.', '.'] then .error .isDirectory
        else
          match fs.get? (loc ++ [last]) with
          | some .directory => .error .isDirectory
          | _ => .ok (fs.set (loc ++ [last]) (.file content))

/-- Copies a file. The target is emptied before the source is read, so a file that is copied onto
itself ends up empty. -/
def copyFile (fs : FileSystem) (source target : Path) : Except IoError FileSystem := do
  let _ ← fs.readBytes source
  let emptied ← fs.writeFile target []
  emptied.writeFile target (← emptied.readBytes source)

end FileSystem

end StyledMarkup
