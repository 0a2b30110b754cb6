import TreeFeatures.FileTree
import TreeFeatures.Fault
import TreeFeatures.Log
import TreeFeatures.Settings.Sources

/-!
# Loading settings

`Settings.load` reads a YAML file and lays it over the environment. Without a path it takes the
file that `TS_ENABLE_CONFIG` names; without that, or if there is no such file, the environment
alone counts. `Settings.coerce` does the same for a value that a caller hands over: a table is read,
anything else is passed over.

A rejected value becomes a report. The other faults are passed on as they are: an environment
variable that is not JSON, a name that is not a text, a file that is not UTF-8, a scalar that is not
of its type, a path that cannot be followed.
-/

namespace TreeFeatures

/-- What a process sees of its machine. -/
structure Machine where
  environment : Environment
  /-- The home directory of a user; that of the process itself under the empty name. -/
  homeOf : String → Option String
  /-- What lies at a path. -/
  lookup : Path → Lookup

/-- The log of an operation, oldest entry first, and its result. -/
structure Logged (α : Type) where
  log : List LogEntry
  result : Except Fault α

namespace Settings

/-- The variable that names the settings file. -/
def pathVariable : String := "TS_ENABLE_CONFIG"

/-- Settings from explicit entries and the environment (`_build_config`); a report names their
source. -/
def buildFrom (env : Environment) (entries : List (Value × Value)) (headline : String)
    (path : Option String) : Except Fault Settings :=
  match build env entries with
  | .ok s => .ok s
  | .error (.unreadable field) => .error (.unreadableVariable field)
  | .error .nameNotText => .error .nameNotText
  | .error (.rejected cs) =>
    .error (.report (.configuration headline path .configInvalid (some (.rejected cs))))

/-- Settings from the environment alone. -/
def fromEnvironment (env : Environment) : Except Fault Settings :=
  buildFrom env [] "Invalid configuration in environment" none

/-- Settings from a value that a caller hands over, unless it is no table (`coerce_config`). -/
def coerce (env : Environment) : Value → Except Fault (Option Settings)
  | .table entries => (buildFrom env entries "Invalid ts-enable configuration" none).map some
  | _ => .ok none

/-- The table at the top of a settings file. -/
def topTable (path : String) : Value → Except Fault (List (Value × Value))
  | .null => .ok []
  | .table entries => .ok entries
  | v =>
    .error (.report (.configuration
      ("Expected a mapping at the top of " ++ path ++ ", got " ++ v.kind) (some path)
      .configInvalid none))

/-- The document in a settings file. -/
def parseFile (path : String) (bytes : List UInt8) : Except Fault Value :=
  match Utf8.text bytes with
  | .error f => .error (.undecodable f)
  | .ok text =>
    match Yaml.read text with
    | .ok v => .ok v
    | .error .malformed =>
      .error (.report (.configuration ("Failed to parse " ++ path) (some path) .configInvalid
        (some .malformed)))
    | .error f => .error (.scalar f)

/-- Settings from the document in a file. -/
def fromDocument (env : Environment) (path : String) (v : Value) : Except Fault Settings := do
  let entries ← topTable path v
  buildFrom env entries ("Invalid configuration in " ++ path) (some path)

/-- Settings from the content of a file. -/
def fromFile (env : Environment) (path : String) (bytes : List UInt8) : Except Fault Settings := do
  fromDocument env path (← parseFile path bytes)

/-- A file that is there but cannot be read. -/
def unreadableFile (path : String) (errno : Nat) : Fault :=
  .report (.configuration ("Failed to read " ++ path) (some path) .configMissing (some (.os errno)))

/-- An entry of the log of loading. -/
def note (text : String) : LogEntry := ⟨.debug, .config, text⟩

/-- Settings from what lies at an expanded path. -/
def loadAt (env : Environment) (path : String) : Lookup → Logged Settings
  | .missing => ⟨[note ("Config file not found: " ++ path)], fromEnvironment env⟩
  | .unreachable errno => ⟨[], .error (.os errno)⟩
  | .directory => ⟨[], .error (unreadableFile path FileTree.isDirectory)⟩
  | .unreadable errno => ⟨[], .error (unreadableFile path errno)⟩
  | .file bytes =>
    match fromFile env path bytes with
    | .ok s =>
      ⟨[note ("Loaded ts-enable config from " ++ path ++ ": parsers=" ++ quotedList s.parsers)],
        .ok s⟩
    | .error f => ⟨[], .error f⟩

/-- The path that is asked for, or else the one that the environment names. -/
def chosenPath (env : Environment) : Option String → Option String
  | some p => some p
  | none => (env.get? pathVariable).filter (· ≠ "")

/-- What loading looks at: nothing, or an expanded path with what lies there. -/
def located (m : Machine) (path : Option String) : Except Fault (Option (String × Lookup)) :=
  match chosenPath m.environment path with
  | none => .ok none
  | some p =>
    match (Path.ofString p).expand? m.homeOf with
    | none => .error .noHome
    | some p => .ok (some (p.toString, m.lookup p))

/-- Settings from a file, or from the environment alone (`load_config`). -/
def load (m : Machine) (path : Option String) : Logged Settings :=
  match located m path with
  | .error f => ⟨[], .error f⟩
  | .ok none => ⟨[], fromEnvironment m.environment⟩
  | .ok (some (p, found)) => loadAt m.environment p found

end Settings

end TreeFeatures
