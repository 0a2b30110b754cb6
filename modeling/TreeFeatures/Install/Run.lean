import TreeFeatures.Enablement.Installed

/-!
# Running installs

Model of the tasks of `InstallerGateway`, the calls of `_run` and `_invoke`, cut where they wait.

`advance` runs a task until it is over or waits for a ticket. At the end of an install the languages
are no longer in flight, and everybody who asked is told, language by language. A failing listener
does not keep the others from hearing.

`settle` runs the loop until nothing can move; it takes a bound on the number of jobs, since a
listener may make new requests for ever.
-/

namespace TreeFeatures.Install

open Act

variable {σ : Type} (s : Surroundings σ)

/-- Change the loop. -/
def updateLoop (f : Loop → Loop) : Act σ Unit := update fun st => { st with loop := f st.loop }

/-- Run an action with the loop running or not. -/
def withLoop {α : Type} (isRunning : Bool) (a : Act σ α) : Act σ α := do
  let before := (← state).loop.isRunning
  updateLoop fun l => { l with isRunning := isRunning }
  let r ← attempt a
  updateLoop fun l => { l with isRunning := before }
  match r with
  | .ok x => pure x
  | .error f => fail f

/-- A request that somebody outside makes when told about an install. -/
def serve (name : String) (r : Request) : Act σ Unit := do
  let task ← Gateway.dispatch s r.languages r.callback
  emit (.requested name task)

/-- What a listener does about the end of an install. -/
def respond (language : String) (success : Bool) : Callback → Act σ Unit
  | .enablement => Enablement.installed s language success
  | .outside name => do
    let reaction : Reaction ← ask s (.tell name language success)
    reaction.requests.forM (serve s name)
    match reaction.failure with
    | none => pure ()
    | some f => fail f

/-- Tell a listener about the end of an install: the inner loop of `InstallerGateway._run`. A
listener that fails ends up in the log. -/
def tell (language : String) (success : Bool) (listener : Callback) : Act σ Unit := do
  emit (.told listener language success)
  shielded (respond s language success listener) .error .installer fun f =>
    "Install completion callback failed for " ++ language ++ ": " ++ f.message

/-- Tell everybody who asked about the end of the install of a language: the outer loop of
`InstallerGateway._run`. -/
def announce (success : Bool) (language : String) : Act σ Unit := do
  let listeners := (← state).gateway.listeners language
  update fun st => { st with gateway := st.gateway.forget language }
  listeners.forM (tell s language success)

/-- The report on an install that failed. -/
def failureReport (languages : List String) (f : Fault) : Report :=
  .installer ("Installer failed for " ++ ", ".intercalate languages ++ ": " ++ f.message) languages
    .installFailed none (some (.external f.message))

/-- Whether an install succeeded, given what the installer answered (`InstallerGateway._invoke`):
every value but false is a success. -/
def judge (languages : List String) : Except Fault Value → Act σ Bool
  | .error f => do
    let report := failureReport languages f
    update fun st => { st with gateway := st.gateway.blame languages report }
    note .warning .installer report.message
    pure false
  | .ok (.bool false) => do
    note .warning .installer ("Installer reported failure for " ++ ", ".intercalate languages)
    pure false
  | .ok _ => do
    note .info .installer ("Installer finished for " ++ ", ".intercalate languages)
    pure true

/-- The installer has answered: the rest of `InstallerGateway._run`. -/
def conclude (id : TaskId) (languages : List String) (answer : Except Fault Value) :
    Act σ Unit := do
  let success ← judge languages answer
  update fun st => { st with gateway := st.gateway.unassign languages }
  languages.forM (announce s success)
  updateLoop fun l => l.finish id (.finished success)

/-- Begin a task: `InstallerGateway._run` up to the answer of the installer. -/
def beginTask (id : TaskId) (task : Task) : Act σ Unit := do
  if task.cancelRequested then updateLoop fun l => l.finish id .cancelled
  else
    match ← attempt (ask s (.install task.languages)) with
    | .ok (.now v) => conclude s id task.languages (.ok v)
    | .ok (.later ticket) => updateLoop fun l => l.setPhase id (.awaiting ticket false)
    | .error f => conclude s id task.languages (.error f)

/-- Go on with a task whose ticket was answered. A task that was cancelled only takes its languages
back (the rest of `InstallerGateway._run`, or its clean-up alone). -/
def resumeTask (id : TaskId) (task : Task) (ticket : Nat) : Act σ Unit := do
  if task.cancelRequested then
    update fun st => { st with gateway := st.gateway.unassign task.languages }
    updateLoop fun l => l.finish id .cancelled
  else
    let answer ← attempt (ask s (.collect ticket))
    conclude s id task.languages answer

/-- Run a task until it is over or waits. -/
def advance (id : TaskId) : Act σ Unit := do
  match (← state).loop.tasks[id]? with
  | none => pure ()
  | some task =>
    match task.phase with
    | .queued => beginTask s id task
    | .awaiting ticket true => resumeTask s id task ticket
    | .awaiting _ false | .finished _ | .cancelled => pure ()

/-- The tasks that `InstallerGateway.wait` has to wait for. -/
def inFlight (g : Gateway) (wait : Wait) : List TaskId :=
  match wait.language with
  | some language => (Assoc.get? g.pending language).toList
  | none => distinct (g.pending.map Prod.snd)

/-- Do a job. -/
def work : Job → Act σ Unit
  | .task id => advance s id
  | .report wait => updateLoop fun l => l.receive wait
  | .look wait => do
    let st ← state
    match st.loop.waits[wait]? with
    | some w => updateLoop fun l => l.look wait (inFlight st.gateway w)
    | none => pure ()

/-- Do the jobs of the queue, up to a number of them. -/
def workOff : Nat → Act σ Unit
  | 0 => pure ()
  | bound + 1 => do
    match (← state).loop.next? with
    | none => pure ()
    | some (job, rest) =>
      updateLoop fun _ => rest
      work s job
      workOff bound

/-- Run the loop until nothing can move. -/
def settle (bound : Nat) : Act σ Unit := withLoop true (workOff s bound)

end TreeFeatures.Install
