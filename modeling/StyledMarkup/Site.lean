import StyledMarkup.Compile
import StyledMarkup.Config
import StyledMarkup.Page

/-!
# Building a site

Every route file in the route directory becomes a page in the output directory. The page of the
default route is written a second time as the index page. The assets are copied at the end. A build
that fails leaves behind what it has written so far.
-/

namespace StyledMarkup

/-- Why a site cannot be built. -/
inductive BuildError where
  | io (path : Path) (e : IoError)
  | compile (path : Path) (e : CompileError)
  /-- The template lacks a placeholder. -/
  | template (path : Path) (placeholder : Text)
  deriving DecidableEq, Repr

def BuildError.message : BuildError → String
  | .io path e => s!"{String.ofList path.text}: {e.message}"
  | .compile path e => s!"{String.ofList path.text}: {e.message}"
  | .template path placeholder =>
    s!"template {String.ofList path.text} has no `{String.ofList placeholder}`"

namespace Site

/-- A step of a build. It changes the file system whether it fails or not. -/
abbrev Build := ExceptT BuildError (StateM FileSystem)

/-- Takes the outcome of a change of the file system that may have been made in part. -/
def attempt (p : Path) (change : FileSystem → Except IoError Unit × FileSystem) : Build Unit :=
  fun fs ↦
    let (outcome, changed) := change fs
    (outcome.mapError (.io p), changed)

/-- Makes a change of the file system as a whole or not at all. -/
def change (p : Path) (f : FileSystem → Except IoError FileSystem) : Build Unit :=
  attempt p fun fs ↦
    match f fs with
    | .ok changed => (.ok (), changed)
    | .error e => (.error e, fs)

/-- Looks something up in the file system. -/
def look {α : Type} (p : Path) (f : FileSystem → Except IoError α) : Build α :=
  fun fs ↦ ((f fs).mapError (.io p), fs)

/-! ## Pages -/

/-- The template of a project, which has to have both placeholders. -/
def loadTemplate (p : Path) : Build Text := fun fs ↦
  (match fs.readText p with
    | .error .notFound => .ok Page.defaultTemplate
    | .error e => .error (.io p e)
    | .ok t =>
      match Page.missing? t with
      | some placeholder => .error (.template p placeholder)
      | none => .ok t, fs)

/-- An entry of the route directory is a route. -/
def isRoute (name : Text) (e : Entry) : Bool :=
  match e with
  | .directory => false
  | .file _ => Path.extension? ⟨name⟩ == some "cssx".toList

/-- The route files of a directory, in the order of their names. -/
def routeFiles (dir : Path) : Build (List Path) := do
  let entries ← look dir fun fs ↦ fs.list dir
  return (entries.filter fun (name, e) ↦ isRoute name e).map fun (name, _) ↦ dir.join ⟨name⟩

def compileRoute (options : Options) (route : Path) : Build Output := do
  let source ← look route fun fs ↦ fs.readText route
  fun fs ↦
    let base := route.parent?.getD Path.here
    ((Compile.both fs.load options base source).mapError (.compile route), fs)

def writePage (p : Path) (page : Text) : Build Path := do
  change p fun fs ↦ fs.writeFile p (Text.encode page)
  return p

/-- Builds one route and gives the pages that were written for it. -/
def buildRoute (config : Config) (options : Options) (template : Text) (out route : Path) :
    Build (List Path) := do
  let output ← compileRoute options route
  let page := Page.inject template output.html output.css
  let stem := route.stem?.getD []
  let own ← writePage (out.join ⟨stem ++ ".html".toList⟩) page
  if stem = config.defaultRouteName then
    let index ← writePage (out.join ⟨"index.html".toList⟩) page
    return [own, index]
  else return [own]

/-! ## Assets -/

def isDirectory (p : Path) : Build Bool := fun fs ↦ (.ok (fs.isDirectory p), fs)

/-- Copies all that is in a directory to another one, entry by entry in the order of the names, and
gives the number of files that were copied. A directory that is copied into itself is found again in
its own copy, until the path of the copy is too long. -/
def copyTree (source target : Path) : Build Nat :=
  if _h : Path.sizeLimit ≤ target.size then throw (.io target .nameTooLong)
  else do
    attempt target fun fs ↦ fs.makeDirectories target
    let entries ← look source fun fs ↦ fs.list source
    let counts ← entries.mapM fun (name, _) ↦ do
      let path := source.join ⟨name⟩
      match _hname : path.fileName? with
      | none => return 0
      | some name =>
        if ← isDirectory path then copyTree path (target.join ⟨name⟩)
        else
          change path fun fs ↦ fs.copyFile path (target.join ⟨name⟩)
          return 1
    return counts.foldr (· + ·) 0
termination_by Path.sizeLimit - target.size
decreasing_by
  have := Path.size_lt_size_join target _hname
  omega

/-! ## The whole site -/

/-- Builds the site of a project and gives the pages that were written, in order. -/
def build (root : Path) (config : Config) (options : Options) : Build (List Path) := do
  let template ← loadTemplate (root.join config.template)
  let out := root.join config.outputDir
  attempt out fun fs ↦ fs.makeDirectories out
  let routes ← routeFiles (root.join config.routeDir)
  let written ← routes.mapM (buildRoute config options template out)
  match config.assetsDir with
  | none => pure ()
  | some assets =>
    let source := root.join assets
    let _ ← copyTree source (out.join ⟨source.fileName?.getD []⟩)
  return written.flatten

end Site

end StyledMarkup
