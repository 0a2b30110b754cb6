import TreeFeatures.Install.Run

/-!
# The controller

Model of `LifecycleController`: the operations that an editor binds to events and commands. Where no
document is named they are about the current one, and where no language or filetype is named about
that of the document.

`attach` and `installAll` install grammars; `start` does not. `detach` ends automatic attaching:
after it `filetypeEvent` does nothing.
-/

namespace TreeFeatures.Controller

open Act

variable {σ : Type} (s : Surroundings σ)

/-- A document, or else the current one. -/
def documentOr : Option Handle → Act σ Handle
  | some document => pure document
  | none => ask s .currentDocument

/-- A filetype, or else that of a document. -/
def filetypeOr (document : Handle) : Option String → Act σ String
  | some filetype => pure filetype
  | none => ask s (.filetypeOf document)

/-- The document that a call is about and its filetype. -/
def subject (document : Option Handle) (filetype : Option String) : Act σ (Handle × String) := do
  let document ← documentOr s document
  pure (document, ← filetypeOr s document filetype)

/-- Whether a document shows features (`LifecycleController.is_active`). -/
def isActive (document : Option Handle) : Act σ Bool := do
  let document ← documentOr s document
  pure ((← state).features.isActive document)

/-- Show the features of a document, with given flags or else those of its language
(`LifecycleController.start`). -/
def start (document : Option Handle) (language : Option String) (flags : Option Flags) :
    Act σ Unit := do
  let _ ← Enablement.prepare s
  let d ← subject s document language
  let flags ← match flags with
    | some flags => pure flags
    | none => Enablement.resolve s (some d.2)
  Features.start s d.1 d.2 flags

/-- Hide the features of a document and put its options back (`LifecycleController.stop`). -/
def stop (document : Option Handle) : Act σ Unit := do
  let document ← documentOr s document
  Features.stop s document

/-- The two outcomes of toggling. -/
inductive Toggled where
  | started
  | stopped
  deriving DecidableEq

/-- The word for an outcome. -/
def Toggled.text : Toggled → String
  | started => "started"
  | stopped => "stopped"

/-- Stop the current document if it shows features, and start it otherwise. -/
def switch : Act σ Toggled := do
  if ← isActive s none then
    stop s none
    pure .stopped
  else
    start s none none none
    pure .started

/-- Stop or start the current document, and tell the user (`LifecycleController.toggle`). -/
def toggle : Act σ Toggled := do
  let outcome ← switch s
  ask s (.notify ("ts-enable " ++ outcome.text) .info)
  pure outcome

/-- Replace the settings by what a caller hands over (`LifecycleController.setup`); anything but a
table is passed over. -/
def setup (v : Value) : Act σ Unit := do
  match Settings.coerce (← machine s).environment v with
  | .error f => fail f
  | .ok none => note .debug .controller ("Ignoring setup() with " ++ v.kind)
  | .ok (some settings) => Enablement.setSettings settings

/-- Attach a document, installing its grammar if needed (`LifecycleController.attach`). -/
def attach (document : Option Handle) (filetype : Option String) :
    Act σ (Option Availability) := do
  let d ← subject s document filetype
  Enablement.attach s d.1 d.2

/-- End automatic attaching and stop the current document (`LifecycleController.detach`). -/
def detach : Act σ Unit := do
  update fun st => { st with autoAttach := false }
  stop s none

/-- Install every managed language (`LifecycleController.ensure_installed`); the task, unless
nothing can be installed. -/
def installAll : Act σ (Option TaskId) := do
  let _ ← Enablement.prepare s
  let parsers := (← Enablement.settings s).parsers
  Gateway.dispatch s parsers (some .enablement)

/-- A document got a filetype (`LifecycleController.handle_filetype_event`): attach it, while this
happens by itself. -/
def filetypeEvent (document : Option Handle) (filetype : Option String) :
    Act σ (Option Availability) := do
  if (← state).autoAttach then attach s document filetype else pure none

end TreeFeatures.Controller
