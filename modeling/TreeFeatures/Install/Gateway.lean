import TreeFeatures.Assoc
import TreeFeatures.Editor.Call

/-!
# The gateway to the installer

The data of `InstallerGateway`. It is what is remembered about installs: whether there is an
installer, which task installs which language, who wants to hear about the end of it, and what went
wrong.
-/

namespace TreeFeatures

/-- How an installer is looked for. -/
inductive Search where
  /-- Among the registered installers. -/
  | registered
  /-- In a way of its own. -/
  | configured
  deriving DecidableEq

/-- What is known about the installer. -/
inductive Installer where
  /-- Nobody has looked for one yet. -/
  | unsought (search : Search)
  | present
  /-- There is none, as reported. -/
  | missing (report : Report)

/-- The number of a task, in the order of creation. -/
abbrev TaskId := Nat

/-- What is remembered about installs (the attributes of `InstallerGateway`). -/
structure Gateway where
  installer : Installer := .unsought .registered
  /-- The task that installs a language. -/
  pending : Assoc String TaskId := []
  /-- Who wants to hear about the end of an install, in the order of the requests. -/
  callbacks : Assoc String (List Callback) := []
  /-- The last report on a language. -/
  errors : Assoc String Report := []

namespace Gateway

/-- The report that there is no installer (`InstallerGateway.missing_error`). -/
def missing? (g : Gateway) : Option Report :=
  match g.installer with
  | .missing r => some r
  | _ => none

/-- The requested languages without repetitions and empty names. -/
def requested (languages : List String) : List String := (distinct languages).filter (· ≠ "")

/-- The languages that nobody installs yet. -/
def fresh (g : Gateway) (languages : List String) : List String :=
  languages.filter fun l => !Assoc.has g.pending l

/-- Have a callback hear about a language, once. -/
def listen (g : Gateway) (callback : Callback) (language : String) : Gateway :=
  let known := (Assoc.get? g.callbacks language).getD []
  { g with callbacks :=
      Assoc.put g.callbacks language (if callback ∈ known then known else known ++ [callback]) }

/-- Have a callback, if there is one, hear about several languages. -/
def listenAll (g : Gateway) (callback : Option Callback) (languages : List String) : Gateway :=
  match callback with
  | some c => languages.foldl (fun g l => g.listen c l) g
  | none => g

/-- Leave languages to a task. -/
def assign (g : Gateway) (languages : List String) (task : TaskId) : Gateway :=
  { g with pending := Assoc.putAll g.pending (languages.map fun l => (l, task)) }

/-- Take languages from their tasks. -/
def unassign (g : Gateway) (languages : List String) : Gateway :=
  { g with pending := languages.foldl Assoc.remove g.pending }

/-- Keep a report on languages. -/
def blame (g : Gateway) (languages : List String) (r : Report) : Gateway :=
  { g with errors := Assoc.putAll g.errors (languages.map fun l => (l, r)) }

/-- Who wants to hear about a language. -/
def listeners (g : Gateway) (language : String) : List Callback :=
  (Assoc.get? g.callbacks language).getD []

/-- Nobody wants to hear about a language any more. -/
def forget (g : Gateway) (language : String) : Gateway :=
  { g with callbacks := Assoc.remove g.callbacks language }

end Gateway

end TreeFeatures
