import TreeFeatures.Bundled
import TreeFeatures.World

/-!
# Setting up

Model of `TSEnableContext`. Settings are loaded when they are first needed, unless they were given
before. Settings that are rejected count as empty, with an error in the log.

`prepare` fills the registry with the filetypes of the managed languages and finds out which
languages are bundled, once.
-/

namespace TreeFeatures.Enablement

open Act

variable {σ : Type} (s : Surroundings σ)

/-- Keep settings. -/
def keepSettings (settings : Settings) : Act σ Unit :=
  update fun st => { st with settings := some settings }

/-- Replace the settings (`TSEnableContext.set_config`); the registry stays as it is. -/
def setSettings (settings : Settings) : Act σ Unit := do
  keepSettings settings
  if (← state).initialized then
    note .debug .context "Configuration replaced after initialization, registry unchanged"
  else pure ()

/-- Go by what loading the settings came to. -/
def goBy : Except Fault Settings → Act σ Settings
  | .ok settings => do
    keepSettings settings
    pure settings
  | .error (.report r) => do
    note .error .context ("ts-enable configuration ignored: " ++ r.message)
    keepSettings .empty
    pure .empty
  | .error f => fail f

/-- Load the settings. -/
def loadSettings : Act σ Settings := do
  let loaded := Settings.load (← machine s) none
  noteAll loaded.log
  goBy loaded.result

/-- The settings in force (`TSEnableContext.config`). -/
def settings : Act σ Settings := do
  match (← state).settings with
  | some settings => pure settings
  | none => loadSettings s

/-- The flags of a language under the settings in force (`TSEnableContext.resolve`). -/
def resolve (language : Option String) : Act σ Flags := do pure ((← settings s).resolve language)

/-- The filetypes of a language, or why they cannot be told. -/
def answerFor (language : String) : Act σ Registry.Answer := do
  pure (language, ← attempt (ask s (.filetypes language)))

/-- Bring the filetypes of languages into the registry. -/
def seed (languages : List String) : Act σ Unit := do
  let answers ← languages.mapM (answerFor s)
  let registry := (← state).registry
  noteAll (registry.seedLog answers)
  update fun st => { st with registry := (registry.seed answers).registry }

/-- The query files that come with the editor; none if they cannot be listed. -/
def bundledPaths : Act σ (List String) := do
  match ← attempt (ask s .bundledPaths) with
  | .ok paths => pure paths
  | .error f =>
    note .warning .context ("Could not list bundled query files: " ++ f.message)
    pure []

/-- Find out which languages are bundled. -/
def findBundled : Act σ Unit := do
  let languages := Bundled.scan (← bundledPaths s)
  noteAll [Bundled.scanLog languages]
  update fun st => { st with bundled := languages }

/-- Set up registry and bundled languages. -/
def populate (parsers : List String) : Act σ Unit := do
  seed s parsers
  findBundled s
  let st ← state
  note .info .context
    ("ts-enable initialized: " ++ toString parsers.length ++ " parsers, " ++
      toString st.registry.length ++ " filetypes, " ++ toString st.bundled.length ++
      " builtin languages")

/-- Set up registry and bundled languages, unless this was done before; whether it was not
(`TSEnableContext.ensure_initialized`). -/
def prepare : Act σ Bool := do
  if (← state).initialized then pure false
  else
    update fun st => { st with initialized := true }
    populate s (← settings s).parsers
    pure true

end TreeFeatures.Enablement
