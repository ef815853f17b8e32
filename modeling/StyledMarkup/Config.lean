import StyledMarkup.FileSystem.Access
import StyledMarkup.Json.Read

/-!
# Project files

A project file is a JSON object whose keys are all optional. Unknown keys are passed over and known
ones may stand once. An array of values in the order of the keys does as well; what is missing at
its end takes its default.
-/

namespace StyledMarkup

/-- Where a project has its parts. -/
structure Config where
  port : Nat := 3000
  routeDir : Path := ⟨"./routes".toList⟩
  /-- The route whose page is also the index page. -/
  defaultRoute : Text := "/home".toList
  outputDir : Path := ⟨"./dist".toList⟩
  assetsDir : Option Path := none
  template : Path := ⟨"index.html".toList⟩
  deriving DecidableEq, Repr

inductive ConfigKey where
  | port
  | routeDir
  | defaultRoute
  | outputDir
  | assetsDir
  | template
  deriving DecidableEq, Repr

namespace ConfigKey

def all : List ConfigKey :=
  [.port, .routeDir, .defaultRoute, .outputDir, .assetsDir, .template]

def name : ConfigKey → Text
  | .port => "port".toList
  | .routeDir => "routeDir".toList
  | .defaultRoute => "defaultRoute".toList
  | .outputDir => "outputDir".toList
  | .assetsDir => "assetsDir".toList
  | .template => "template".toList

def ofName? (t : Text) : Option ConfigKey :=
  all.find? fun key ↦ key.name == t

end ConfigKey

namespace Config

/-- The text of a value that has to be a string. -/
def text? : Json.Value → Option Text
  | .string spelling => spelling.text?
  | _ => none

def port? : Json.Value → Option Nat
  | .number (some n) => if n ≤ 65535 then some n else none
  | _ => none

/-- The configuration with the value of one key set. -/
def set (c : Config) (key : ConfigKey) (v : Json.Value) : Option Config :=
  match key with
  | .port => (port? v).map fun n ↦ { c with port := n }
  | .routeDir => (text? v).map fun t ↦ { c with routeDir := ⟨t⟩ }
  | .defaultRoute => (text? v).map fun t ↦ { c with defaultRoute := t }
  | .outputDir => (text? v).map fun t ↦ { c with outputDir := ⟨t⟩ }
  | .assetsDir =>
    match v with
    | .null => some { c with assetsDir := none }
    | v => (text? v).map fun t ↦ { c with assetsDir := some ⟨t⟩ }
  | .template => (text? v).map fun t ↦ { c with template := ⟨t⟩ }

/-- Sets the values of known keys in order; `seen` are the keys set before. -/
def setMembers (c : Config) (seen : List ConfigKey) :
    List (Json.Spelling × Json.Value) → Option Config
  | [] => some c
  | (spelling, v) :: more =>
    match spelling.text? with
    | none => none
    | some name =>
      match ConfigKey.ofName? name with
      | none => setMembers c seen more
      | some key =>
        if key ∈ seen then none else (c.set key v).bind fun c ↦ setMembers c (key :: seen) more

/-- Sets the values of keys by position. There may not be more values than keys. -/
def setItems (c : Config) : List ConfigKey → List Json.Value → Option Config
  | _, [] => some c
  | [], _ :: _ => none
  | key :: keys, v :: more => (c.set key v).bind fun c ↦ setItems c keys more

/-- The configuration that a JSON value describes. -/
def ofJson? : Json.Value → Option Config
  | .object members => setMembers {} [] members
  | .array items => setItems {} ConfigKey.all items
  | _ => none

/-- The configuration in the text of a project file. -/
def ofText? (t : Text) : Option Config :=
  (Json.read t).bind ofJson?

/-- The name of the default route: the route without the slashes around it. -/
def defaultRouteName (c : Config) : Text :=
  ((c.defaultRoute.dropWhile (· == '/')).reverse.dropWhile (· == '/')).reverse

end Config

/-- Why a project file gives no configuration. -/
inductive ConfigError where
  | unreadable (path : Path) (e : IoError)
  | invalid (path : Path)
  deriving DecidableEq, Repr

def ConfigError.message : ConfigError → String
  | .unreadable path e => s!"cannot read {String.ofList path.text}: {e.message}"
  | .invalid path => s!"invalid {String.ofList path.text}"

/-- The configuration in a project file. Without the file it is the default one. -/
def Config.load (fs : FileSystem) (p : Path) : Except ConfigError Config :=
  match fs.readText p with
  | .error .notFound => .ok {}
  | .error e => .error (.unreadable p e)
  | .ok t =>
    match Config.ofText? t with
    | some c => .ok c
    | none => .error (.invalid p)

end StyledMarkup
