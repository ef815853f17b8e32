import StyledMarkup.Path

/-!
# Command line arguments

The command line names one of three verbs. Flags and settings may stand before and after the verb
if every verb has them, and after it if only that verb has them. Two hyphens end the flags: what
follows them is taken as it is. A request for the version is answered as soon as it is read.
-/

namespace StyledMarkup.Command

/-- What the program can be asked to do. -/
inductive Verb where
  | compile
  | check
  | build
  deriving DecidableEq, Repr

def Verb.ofText? (t : Text) : Option Verb :=
  if t = "compile".toList then some .compile
  else if t = "check".toList then some .check
  else if t = "build".toList then some .build
  else none

/-- A switch without a value. -/
inductive Flag where
  | verbose
  | html
  | css
  deriving DecidableEq, Repr

def Flag.ofText? (t : Text) : Option Flag :=
  if t = "verbose".toList then some .verbose
  else if t = "html".toList then some .html
  else if t = "css".toList then some .css
  else none

/-- A setting that takes a value. -/
inductive Setting where
  | variable
  | config
  deriving DecidableEq, Repr

def Setting.ofText? (t : Text) : Option Setting :=
  if t = "var".toList then some .variable
  else if t = "config".toList then some .config
  else none

/-- What may be written at some point of the command line. -/
structure Grammar where
  flags : List Flag
  settings : List Setting
  /-- How many plain arguments there may be. -/
  plain : Nat
  version : Bool

def Grammar.beforeVerb : Grammar := ⟨[.verbose], [.variable], 0, true⟩

def Grammar.after : Verb → Grammar
  | .compile => ⟨[.verbose, .html, .css], [.variable], 1, false⟩
  | .check => ⟨[.verbose], [.variable], 1, false⟩
  | .build => ⟨[.verbose], [.variable, .config], 0, false⟩

/-- What has been read on one side of the verb. -/
structure Matches where
  flags : List Flag := []
  assignments : List (Text × Text) := []
  config : Option Text := none
  plain : List Text := []
  /-- The setting that waits for its value. -/
  awaiting : Option Setting := none
  /-- Two hyphens have been read. -/
  trailing : Bool := false
  deriving DecidableEq, Repr

/-- Why reading arguments stops. -/
inductive Stop where
  | usage
  | version
  deriving DecidableEq, Repr

/-- Reads `name=value`. The name is trimmed and must not be blank. -/
def assignment? (t : Text) : Option (Text × Text) :=
  match Text.splitAt? '=' t with
  | none => none
  | some (name, value) => if Text.allBlank name then none else some (Text.trim name, value)

namespace Matches

/-- Takes a flag, which may be given once. -/
def takeFlag (g : Grammar) (m : Matches) (flag : Flag) : Except Stop Matches :=
  if g.flags.contains flag && !m.flags.contains flag then
    .ok { m with flags := flag :: m.flags }
  else .error .usage

/-- Takes the value of a setting. Variables may be given many times. -/
def takeValue (m : Matches) (setting : Setting) (value : Text) : Except Stop Matches :=
  match setting with
  | .variable =>
    match assignment? value with
    | some entry => .ok { m with assignments := m.assignments ++ [entry], awaiting := none }
    | none => .error .usage
  | .config =>
    if value = [] ∨ m.config.isSome = true then .error .usage
    else .ok { m with config := some value, awaiting := none }

def takePlain (g : Grammar) (m : Matches) (t : Text) : Except Stop Matches :=
  if m.plain.length < g.plain then .ok { m with plain := m.plain ++ [t] } else .error .usage

/-- Takes an argument after two hyphens, with its value if it has one. -/
def takeLong (g : Grammar) (m : Matches) (name : Text) (value : Option Text) :
    Except Stop Matches :=
  match Flag.ofText? name, Setting.ofText? name, value with
  | some flag, _, none => m.takeFlag g flag
  | _, some setting, value =>
    if g.settings.contains setting then
      match value with
      | some value => m.takeValue setting value
      | none => .ok { m with awaiting := some setting }
    else .error .usage
  | _, _, value =>
    if g.version && name == "version".toList && value.isNone then .error .version
    else .error .usage

def takeShort (g : Grammar) (m : Matches) (letters : Text) : Except Stop Matches :=
  letters.foldlM (fun m letter ↦
    if letter = 'v' then m.takeFlag g .verbose
    else if letter = 'V' && g.version then .error .version
    else .error .usage) m

/-- Takes one argument. The value of a setting may not look like a flag; one hyphen alone is a plain
argument. -/
def take (g : Grammar) (m : Matches) (arg : Text) : Except Stop Matches :=
  if m.trailing then m.takePlain g arg
  else
    match arg, m.awaiting with
    | '-' :: _ :: _, some _ => .error .usage
    | value, some setting => m.takeValue setting value
    | ['-', '-'], none => .ok { m with trailing := true }
    | '-' :: '-' :: long, none =>
      match Text.splitAt? '=' long with
      | some (name, value) => m.takeLong g name (some value)
      | none => m.takeLong g long none
    | '-' :: c :: letters, none => m.takeShort g (c :: letters)
    | plain, none => m.takePlain g plain

end Matches

/-- What the program is asked to do, in full. -/
inductive Request where
  | version
  /-- Compile a file and print the HTML fragment, the stylesheet, or both. -/
  | compile (assignments : List (Text × Text)) (path : Text) (html css : Bool)
  | check (assignments : List (Text × Text)) (path : Text)
  | build (assignments : List (Text × Text)) (config : Path)
  deriving DecidableEq, Repr

/-- The request that a verb with its arguments makes. Variables after the verb take the place of
those before it. -/
def request (verb : Verb) (before after : Matches) : Except Stop Request :=
  let assignments := if after.assignments.isEmpty then before.assignments else after.assignments
  let html := after.flags.contains .html
  let css := after.flags.contains .css
  if after.awaiting.isSome then .error .usage
  else
    match verb, after.plain with
    | .compile, [path] =>
      if html && css then .error .usage else .ok (.compile assignments path html css)
    | .check, [path] => .ok (.check assignments path)
    | .build, [] => .ok (.build assignments ⟨after.config.getD "cssx.json".toList⟩)
    | _, _ => .error .usage

/-- Reads arguments, given what has been read before the verb. -/
def readFrom (before : Matches) : List Text → Except Stop Request
  | [] => .error .usage
  | arg :: rest =>
    let verb := if before.awaiting.isNone && !before.trailing then Verb.ofText? arg else none
    match verb with
    | some verb => do
      let after ← rest.foldlM (Matches.take (Grammar.after verb)) {}
      request verb before after
    | none => do readFrom (← before.take .beforeVerb arg) rest

def read (args : List Text) : Except Stop Request :=
  match readFrom {} args with
  | .error .version => .ok .version
  | outcome => outcome

end StyledMarkup.Command
