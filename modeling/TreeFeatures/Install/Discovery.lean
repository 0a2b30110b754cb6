import TreeFeatures.World

/-!
# Looking for an installer

Installers are registered under a group name. `findRegistered` takes the first one, perhaps of a
given name, that can be loaded and made; if making it gives nothing, there is none.

`Gateway.isPresent` (`InstallerGateway.is_present`) looks for an installer when it is first asked,
and remembers the answer.
-/

namespace TreeFeatures

open Act

variable {σ : Type} (s : Surroundings σ)

namespace Discovery

/-- The group under which installers are registered. -/
def group : String := "ts_enable.installers"

/-- Load and make the installer at a position. -/
def produce (index : Nat) (name : String) : Act σ Value := do
  ask s (.loadEntryPoint index name)
  ask s (.makeInstaller index name)

/-- Try the registered installers from a position on. -/
def firstOf (wanted : Option String) : Nat → List String → Act σ (Option Value)
  | _, [] => pure none
  | index, name :: names => do
    if wanted.all (· = name) then
      match ← attempt (produce s index name) with
      | .ok v =>
        note .debug .installer ("Loaded grammar installer '" ++ name ++ "'")
        pure (match v with | .null => none | v => some v)
      | .error f =>
        note .warning .installer
          ("Failed to load grammar installer '" ++ name ++ "': " ++ f.message)
        firstOf wanted (index + 1) names
    else firstOf wanted (index + 1) names

/-- The first registered installer, perhaps of a given name (`load_installer_from_entry_points`). -/
def findRegistered (wanted : Option String) : Act σ (Option Value) := do
  match ← attempt (ask s (.entryPoints group)) with
  | .error f =>
    note .debug .installer ("No installer entry points found: " ++ f.message)
    pure none
  | .ok (names : List String) => firstOf s wanted 0 names

/-- Look for an installer; whether there is one. -/
def find : Search → Act σ Bool
  | .registered => do pure (← findRegistered s none).isSome
  | .configured => ask s .findInstaller

end Discovery

namespace Gateway

/-- The report that there is no installer. -/
def missingReport (cause : Option Cause) : Report :=
  .installer "Grammar installer not found, automatic installation disabled" [] .installerMissing
    (some ("Install a package that registers a '" ++ Discovery.group ++ "' entry point")) cause

/-- Remember what is known about the installer. -/
def remember (installer : Installer) : Act σ Unit :=
  update fun st => { st with gateway := { st.gateway with installer := installer } }

/-- Remember that there is no installer. -/
def rememberMissing (cause : Option Cause) : Act σ Bool := do
  remember (.missing (missingReport cause))
  note .warning .installer (missingReport cause).message
  pure false

/-- Whether there is an installer; looked for once (`InstallerGateway.is_present`). -/
def isPresent : Act σ Bool := do
  match (← state).gateway.installer with
  | .present => pure true
  | .missing _ => pure false
  | .unsought search =>
    match ← attempt (Discovery.find s search) with
    | .ok true =>
      remember .present
      pure true
    | .ok false => rememberMissing none
    | .error f =>
      note .debug .installer ("Installer discovery failed: " ++ f.message)
      rememberMissing (some (.external f.message))

end Gateway

end TreeFeatures
