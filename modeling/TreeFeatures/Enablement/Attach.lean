import TreeFeatures.Enablement.Setup
import TreeFeatures.Features.Show
import TreeFeatures.Install.Dispatch

/-!
# Attaching documents

Model of `EnablementEngine.attach` and of the methods that it calls. Attaching has two halves here:
`plan` sets the program up, looks at the filetype and its language and decides (`inquire`, then
`decideOn`); `carryOut` does what was decided. `Decision.of` is the rule:

* a filetype that is available is started, one that is unavailable is left alone;
* an unknown one is started if its grammar is registered already, though a bundled grammar goes
  through the installer when that may run;
* otherwise it is installed, if that is allowed and there is an installer, and the document waits;
* otherwise the bundled queries serve, if there are any.
-/

namespace TreeFeatures.Enablement

open Act

variable {σ : Type} (s : Surroundings σ)

/-- What is to be done for a document. -/
inductive Decision where
  | start
  /-- Start with the bundled queries. -/
  | fallBack
  | install
  | leave
  deriving DecidableEq

/-- The rule of `EnablementEngine.attach`, its tests in order: what is to be done, given what is
known about the filetype, whether the grammar is registered and whether it is bundled, and whether
an installer may be used. -/
def Decision.of (known : Availability) (ready bundled useInstaller : Bool) : Decision :=
  match known with
  | .available => .start
  | .unavailable => .leave
  | .unknown =>
    if ready && !(bundled && useInstaller) then .start
    else if useInstaller then .install
    else if bundled then .fallBack
    else .leave

/-- The language of a filetype, if the editor knows one (`EnablementEngine.language_for`). -/
def languageFor (filetype : String) : Act σ (Option String) := do
  match ← attempt (ask s (.languageOf filetype)) with
  | .ok (language : Option String) => pure (language.filter (· ≠ ""))
  | .error f =>
    note .debug .engine ("No language for filetype " ++ filetype ++ ": " ++ f.message)
    pure none

/-- Whether the grammar of a language is registered (`EnablementEngine._grammar_ready`). -/
def grammarReady (language : String) : Act σ Bool := do
  match ← attempt (ask s (.addLanguage language)) with
  | .ok (.bool b) => pure b
  | .ok _ => pure false
  | .error f =>
    note .debug .engine ("Grammar for " ++ language ++ " not registered: " ++ f.message)
    pure false

/-- Record what has become known about a filetype. -/
def setAvailability (filetype : String) (a : Availability) : Act σ Unit := do
  let registry := (← state).registry
  noteAll (registry.setLog filetype a)
  update fun st => { st with registry := st.registry.set filetype a }

/-- The warning about a document that could not be started. -/
def startWarning (language : String) (document : Handle) (f : Fault) : String :=
  "Failed to start " ++ language ++ " features for document " ++ document.text ++ ": " ++ f.message

/-- Start a document of a filetype that is available: the entry, and then
`EnablementEngine._start`. -/
def startAvailable (document : Handle) (filetype language : String) (flags : Flags) :
    Act σ (Option Availability) := do
  setAvailability filetype .available
  shielded (Features.start s document language flags) .warning .engine
    (startWarning language document)
  pure (some .available)

/-- Have a language installed for a document that waits for it (`EnablementEngine._install`). If
nothing can be installed, no document waits for the language any more. -/
def installFor (document : Handle) (filetype language : String) : Act σ Unit := do
  update fun st => st.enqueue language ⟨document, filetype⟩
  match ← Gateway.install s language (some .enablement) with
  | some _ => pure ()
  | none => update fun st => st.dequeue language

/-- Whether the flags of a language allow an install and there is an installer. -/
def mayInstall (flags : Flags) : Act σ Bool :=
  if flags.autoInstall then Gateway.isPresent s else pure false

/-! ## Planning -/

/-- What attaching a document finds out about its filetype before an installer matters. -/
structure Inquiry where
  known : Availability
  language : String
  /-- The flags of the language under the settings in force. -/
  flags : Flags

/-- What is to be done for the documents of a filetype. -/
structure Plan where
  language : String
  flags : Flags
  /-- What is known about the filetype. -/
  known : Availability
  decision : Decision

/-- Find out about a filetype, if it is managed and the editor knows its language. -/
def inquire (filetype : String) : Act σ (Option Inquiry) := do
  let _ ← prepare s
  match Assoc.get? (← state).registry filetype with
  | none => pure none
  | some known =>
    match ← languageFor s filetype with
    | none => pure none
    | some language => do
      let flags ← resolve s (some language)
      pure (some ⟨known, language, flags⟩)

/-- Whether the grammar of a language is registered, if nothing is known about the filetype yet. -/
def probe (language : String) (known : Availability) : Act σ Bool :=
  if known = .unknown then grammarReady s language else pure false

/-- Decide, given what was found out. -/
def decideOn (q : Inquiry) : Act σ Plan := do
  let useInstaller ← mayInstall s q.flags
  let bundled := (← state).bundled.contains q.language
  let ready ← probe s q.language q.known
  pure ⟨q.language, q.flags, q.known, Decision.of q.known ready bundled useInstaller⟩

/-- What is to be done, given what was found out, if anything. -/
def planFor : Option Inquiry → Act σ (Option Plan)
  | none => pure none
  | some q => do pure (some (← decideOn s q))

/-- Decide what to do for the documents of a filetype; nothing, unless it is managed and the editor
knows its language. -/
def plan (filetype : String) : Act σ (Option Plan) := do planFor s (← inquire s filetype)

/-! ## Carrying out -/

/-- Do for a document what was decided: what is known about its filetype after it, if it is
managed. -/
def carryOut (document : Handle) (filetype : String) : Option Plan → Act σ (Option Availability)
  | none => pure none
  | some p =>
    match p.decision with
    | .start => startAvailable s document filetype p.language p.flags
    | .leave => pure (some p.known)
    | .install => do
      installFor s document filetype p.language
      pure (some p.known)
    | .fallBack => do
      note .debug .engine ("Using bundled queries for " ++ p.language)
      startAvailable s document filetype p.language p.flags

/-- Attach a document: decide what to do for its filetype, and do it (`EnablementEngine.attach`). -/
def attach (document : Handle) (filetype : String) : Act σ (Option Availability) := do
  carryOut s document filetype (← plan s filetype)

end TreeFeatures.Enablement
