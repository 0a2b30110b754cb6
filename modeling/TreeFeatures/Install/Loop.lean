import TreeFeatures.Install.Gateway

/-!
# The loop

Installs run as tasks on a loop. A task that was created runs when its turn comes: jobs are taken
from a queue, first in, first out. A task that waits for a ticket gives up its turn, and is queued
again when the ticket is answered or the task cancelled.

A wait is somebody who wants no install of some language, or of any, to be in flight. It looks at
the tasks in flight, waits until all of these are over, and looks again.
-/

namespace TreeFeatures

/-- How far a task is. -/
inductive Phase where
  /-- Created, and not yet begun. -/
  | queued
  /-- Waiting for the answer to a ticket; `answered` once the task is in the queue again. -/
  | awaiting (ticket : Nat) (answered : Bool)
  | finished (success : Bool)
  | cancelled
  deriving DecidableEq

/-- Whether a task is over. -/
def Phase.isOver : Phase → Bool
  | finished _ | cancelled => true
  | queued | awaiting _ _ => false

/-- An install: a call of `InstallerGateway._run`. -/
structure Task where
  languages : List String
  phase : Phase := .queued
  cancelRequested : Bool := false
  deriving DecidableEq

/-- Somebody who waits until nothing is in flight: a call of `InstallerGateway.wait`. -/
structure Wait where
  /-- The language in question; all of them if there is none. -/
  language : Option String
  /-- The tasks that have to be over before the next look. -/
  awaited : List TaskId := []
  /-- How many of them have not reported yet. -/
  remaining : Nat := 0
  isDone : Bool := false
  deriving DecidableEq

/-- Something to do on the loop. -/
inductive Job where
  | task (id : TaskId)
  /-- A task that a wait waited for is over. -/
  | report (wait : Nat)
  /-- A wait looks at the tasks in flight. -/
  | look (wait : Nat)
  deriving DecidableEq

/-- Tasks and waits by number, and what is to be done. -/
structure Loop where
  /-- Whether tasks can be created. -/
  isRunning : Bool := true
  tasks : List Task := []
  waits : List Wait := []
  queue : List Job := []
  deriving DecidableEq

namespace Loop

/-- Queue a job. -/
def push (l : Loop) (j : Job) : Loop := { l with queue := l.queue ++ [j] }

/-- Create a task; it gets the next number. -/
def create (l : Loop) (languages : List String) : Loop :=
  let task : Task := { languages := languages }
  push { l with tasks := l.tasks ++ [task] } (.task l.tasks.length)

/-- Change a task. -/
def updateTask (l : Loop) (id : TaskId) (f : Task → Task) : Loop :=
  { l with tasks := l.tasks.modify id f }

/-- Change a wait. -/
def updateWait (l : Loop) (id : Nat) (f : Wait → Wait) : Loop :=
  { l with waits := l.waits.modify id f }

/-- Put a task into a phase. -/
def setPhase (l : Loop) (id : TaskId) (p : Phase) : Loop :=
  l.updateTask id fun t => { t with phase := p }

/-- Whether a wait waits for a task. -/
def waitsFor (l : Loop) (id : TaskId) (wait : Nat) : Bool :=
  (l.waits[wait]?).any fun w => !w.isDone && w.awaited.contains id

/-- A task is over: everybody who waited for it gets a report. -/
def finish (l : Loop) (id : TaskId) (p : Phase) : Loop :=
  let told := (List.range l.waits.length).filter (l.waitsFor id)
  told.foldl (fun l w => l.push (.report w)) (l.setPhase id p)

/-- Whether a task is over, or does not exist. -/
def isOver (l : Loop) (id : TaskId) : Bool := (l.tasks[id]?).all fun t => t.phase.isOver

/-- The answer to a ticket is there: the task that waits for it is queued. -/
def answer (l : Loop) (ticket : Nat) : Loop :=
  let waiting := (List.range l.tasks.length).filter fun id =>
    (l.tasks[id]?).any fun t => t.phase = .awaiting ticket false
  waiting.foldl (fun l id => (l.setPhase id (.awaiting ticket true)).push (.task id)) l

/-- Ask a task to stop, unless it is over; whether it was not. A task that waits for a ticket is
queued, any other one is in the queue already. -/
def cancel (l : Loop) (id : TaskId) : Loop × Bool :=
  match l.tasks[id]? with
  | none => (l, false)
  | some t =>
    let l' := l.updateTask id fun t => { t with cancelRequested := true }
    match t.phase with
    | .finished _ | .cancelled => (l, false)
    | .awaiting ticket false => ((l'.setPhase id (.awaiting ticket true)).push (.task id), true)
    | _ => (l', true)

/-- Begin a wait; it gets the next number. -/
def beginWait (l : Loop) (language : Option String) : Loop :=
  let wait : Wait := { language := language }
  push { l with waits := l.waits ++ [wait] } (.look l.waits.length)

/-- A wait looks at the tasks in flight: it is done if there are none, and else waits for them.
Tasks that are over by now report at once. -/
def look (l : Loop) (wait : Nat) (inFlight : List TaskId) : Loop :=
  if inFlight = [] then l.updateWait wait fun w => { w with isDone := true, awaited := [] }
  else
    let l' := l.updateWait wait fun w =>
      { w with awaited := inFlight, remaining := inFlight.length }
    (inFlight.filter l.isOver).foldl (fun l _ => l.push (.report wait)) l'

/-- A report reaches a wait; after the last one it looks again. -/
def receive (l : Loop) (wait : Nat) : Loop :=
  let l' := l.updateWait wait fun w => { w with remaining := w.remaining - 1 }
  if (l'.waits[wait]?).any fun w => w.remaining = 0 then l'.push (.look wait) else l'

/-- The next job, and the loop without it. -/
def next? (l : Loop) : Option (Job × Loop) :=
  match l.queue with
  | [] => none
  | j :: rest => some (j, { l with queue := rest })

end Loop

end TreeFeatures
