import TreeFeatures.Enablement.Attach

/-!
# The end of an install

Model of `EnablementEngine.on_installed`, the callback that the engine hands to the gateway. When a
language was installed, or failed to be, `installed` records what that means for the filetypes
concerned and starts the documents that waited. A failed install of a bundled language falls back to
the bundled queries. While documents are not attached by themselves, none is started.
-/

namespace TreeFeatures.Enablement

open Act

variable {σ : Type} (s : Surroundings σ)

/-- The filetypes of a language; none if they cannot be told. -/
def listedFor (language : String) : Act σ (List String) := do
  match ← attempt (ask s (.filetypes language)) with
  | .ok filetypes => pure filetypes
  | .error f =>
    note .debug .engine ("Could not get filetypes for " ++ language ++ ": " ++ f.message)
    pure []

/-- The managed ones of some filetypes, each once. -/
def managedOf (filetypes : List String) : Act σ (List String) := do
  let registry := (← state).registry
  pure ((distinct filetypes).filter fun ft => Assoc.has registry ft)

/-- The managed filetypes that an install of a language concerns: those of the documents that
waited, and those that the editor lists (`EnablementEngine._filetypes_of`). -/
def filetypesOf (language : String) (waiters : List Waiter) : Act σ (List String) := do
  managedOf (waiters.map Waiter.filetype ++ (← listedFor s language))

/-- Record the end of an install for a filetype: what is available stays so. -/
def judge (isAvailable : Bool) (filetype : String) : Act σ Unit := do
  if isAvailable then setAvailability filetype .available
  else if Assoc.get? (← state).registry filetype = some .available then pure ()
  else setAvailability filetype .unavailable

/-- Start a document that waited, if the editor still has it. -/
def startWaiter (language : String) (flags : Flags) (w : Waiter) : Act σ Unit :=
  shielded
    (do
      let valid : Bool ← ask s (.isValid w.document)
      if valid then Features.start s w.document language flags else pure ())
    .warning .engine (startWarning language w.document)

/-- Start the documents that waited, while documents are attached by themselves. -/
def startWaiters (language : String) (waiters : List Waiter) : Act σ Unit := do
  if (← state).autoAttach then
    let flags ← resolve s (some language)
    waiters.forM (startWaiter s language flags)
  else
    note .debug .engine
      ("Attach disabled, not starting " ++ toString waiters.length ++ " waiting documents")

/-- Whether a language can be used, given whether its grammar is registered. -/
def orBundled (language : String) (ready : Bool) : Act σ Bool := do
  if ready then pure true else pure ((← state).bundled.contains language)

/-- Whether a language can be used after an install. -/
def usable (language : String) (success : Bool) : Act σ Bool := do
  orBundled language (← if success then grammarReady s language else pure false)

/-- A failed install of a language that can be used all the same is worth a note. -/
def noteFallBack (language : String) (success isAvailable : Bool) : Act σ Unit :=
  if isAvailable && !success then
    note .info .engine
      ("Install of " ++ language ++ " failed, falling back to bundled queries")
  else pure ()

/-- Record for the filetypes concerned whether a language can be used, and start the documents that
waited if it can. -/
def enact (language : String) (waiters : List Waiter) (isAvailable : Bool) : Act σ Unit := do
  let filetypes ← filetypesOf s language waiters
  filetypes.forM (judge isAvailable)
  if isAvailable then startWaiters s language waiters
  else note .warning .engine ("Grammar for " ++ language ++ " is unavailable")

/-- What the end of an install means: for the filetypes concerned, and for the documents that
waited. -/
def judgeInstall (language : String) (success : Bool) (waiters : List Waiter) : Act σ Unit := do
  let isAvailable ← usable s language success
  noteFallBack language success isAvailable
  enact s language waiters isAvailable

/-- The install of a language is over (`EnablementEngine.on_installed`): the documents that waited
are taken off the list, and then the install is judged. -/
def installed (language : String) (success : Bool) : Act σ Unit := do
  let waiters := (← state).waitersOf language
  update fun st => st.dequeue language
  judgeInstall s language success waiters

end TreeFeatures.Enablement
