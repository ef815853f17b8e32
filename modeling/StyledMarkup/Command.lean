import StyledMarkup.Command.Arguments
import StyledMarkup.Site

/-!
# The command

The command compiles a file and prints the result, checks a file, or builds a site. It is a function
from arguments and a file system to what is printed, an exit code and the file system afterwards.
-/

namespace StyledMarkup.Command

/-- What a run of the command shows. -/
structure Outcome where
  exit : Nat
  stdout : String := ""
  stderr : String := ""
  deriving DecidableEq, Repr

/-- A failure with a message. -/
def Outcome.failure (message : String) : Outcome :=
  { exit := 1, stderr := message ++ "\n" }

/-- The source in a file. -/
def readSource (fs : FileSystem) (path : Text) : Except Outcome Text :=
  if fs.exists? ⟨path⟩ then
    (fs.readText ⟨path⟩).mapError fun e ↦
      .failure s!"Error reading {String.ofList path}: {e.message}"
  else .error (.failure s!"Error: file not found: {String.ofList path}")

/-- Both renderings of a file, whose imports are relative to its directory. -/
def compileFile (fs : FileSystem) (assignments : List (Text × Text)) (path : Text) :
    Except Outcome Output := do
  let source ← readSource fs path
  let base := (Path.parent? ⟨path⟩).getD Path.here
  let options := Options.overrideAll {} assignments
  (Compile.both fs.load options base source).mapError fun e ↦ .failure e.message

/-- Prints the renderings of a file. -/
def compile (fs : FileSystem) (assignments : List (Text × Text)) (path : Text) (html css : Bool) :
    Outcome :=
  match compileFile fs assignments path with
  | .error outcome => outcome
  | .ok output =>
    let shown :=
      if css then output.css
      else if html then output.html
      else output.html ++ "\n\n".toList ++ output.css
    { exit := 0, stdout := String.ofList shown ++ "\n" }

/-- Says whether a file compiles. -/
def check (fs : FileSystem) (assignments : List (Text × Text)) (path : Text) : Outcome :=
  match compileFile fs assignments path with
  | .error outcome => outcome
  | .ok _ => { exit := 0, stderr := s!"OK: {String.ofList path}\n" }

/-- Builds the site of a project file. -/
def build (fs : FileSystem) (assignments : List (Text × Text)) (config : Path) :
    Outcome × FileSystem :=
  match Config.load fs config with
  | .error (.invalid p) =>
    ({ exit := 1, stderr := "Error: " ++ (ConfigError.invalid p).message }, fs)
  | .error e => (.failure ("Error: " ++ e.message), fs)
  | .ok settings =>
    let root := config.parent?.getD Path.here
    match (Site.build root settings (Options.overrideAll {} assignments)).run fs with
    | (.error e, built) => (.failure ("Build error: " ++ e.message), built)
    | (.ok pages, built) =>
      let shown := pages.map fun page ↦ s!"Built: {String.ofList page.text}\n"
      ({ exit := 0, stderr := String.join shown }, built)

/-- Runs the command. Wrong arguments give exit code two. -/
def run (fs : FileSystem) (args : List Text) : Outcome × FileSystem :=
  match read args with
  | .error _ => ({ exit := 2 }, fs)
  | .ok .version => ({ exit := 0, stdout := "cssx 0.3.0\n" }, fs)
  | .ok (.compile assignments path html css) => (compile fs assignments path html css, fs)
  | .ok (.check assignments path) => (check fs assignments path, fs)
  | .ok (.build assignments config) => build fs assignments config

end StyledMarkup.Command
