import TreeFeatures.Controller
import TreeFeatures.Text.Blank

/-!
# Commands

Model of `CommandDispatcher`. A user runs an operation of the controller by its name. A name that
does not exist and, unless it is to be passed on, a failure of the operation are told to the user.
-/

namespace TreeFeatures

/-- The operations that a user can run (the handlers of `CommandDispatcher`). -/
inductive Command where
  | start
  | stop
  | toggle
  | attach
  | detach
  | ensureInstalled
  deriving DecidableEq

namespace Command

open Act

/-- All commands. -/
def all : List Command := [start, stop, toggle, attach, detach, ensureInstalled]

/-- The name of a command. -/
def name : Command → String
  | start => "start"
  | stop => "stop"
  | toggle => "toggle"
  | attach => "attach"
  | detach => "detach"
  | ensureInstalled => "ensure_installed"

/-- The command of a name. -/
def ofName? (s : String) : Option Command := all.find? fun c => c.name == s

/-- The names that begin with a text (`CommandDispatcher.complete`). -/
def complete (start : String) : List String :=
  (all.map name).filter fun n => start.toList.isPrefixOf n.toList

/-- What messages to the user begin with. -/
def tag : String := "[ts-enable] "

/-- What the user is told about a name that does not exist. -/
def unknownMessage (name : String) : String :=
  tag ++ (Report.command name (all.map Command.name)).message

/-- What the user is told about a command that failed. -/
def failedMessage (name : String) : String := tag ++ "Command \"" ++ name ++ "\" failed"

variable {σ : Type} (s : Surroundings σ)

/-- Run a command. -/
def perform : Command → Act σ Unit
  | start => Controller.start s none none none
  | stop => Controller.stop s none
  | toggle => do let _ ← Controller.toggle s
  | attach => do let _ ← Controller.attach s none none
  | detach => Controller.detach s
  | ensureInstalled => do let _ ← Controller.installAll s

/-- Tell the user what went wrong, next to an entry of the log about it. -/
def complain (level : Level) (entry message : String) : Act σ Bool := do
  note level .commands entry
  ask s (.notify message level)
  pure false

/-- Tell the user that there is no such command. -/
def refuse (name : String) : Act σ Bool :=
  complain s .warning (Report.command name (all.map Command.name)).message (unknownMessage name)

/-- Tell the user that a command failed. -/
def admitFailure (name : String) (f : Fault) : Act σ Bool :=
  complain s .error ("Command \"" ++ name ++ "\" failed: " ++ f.message) (failedMessage name)

/-- Whether a command ran without a failure; the user is told about one. -/
def conclude (name : String) : Except Fault Unit → Act σ Bool
  | .ok () => pure true
  | .error f => admitFailure s name f

/-- Run the command of a name, blanks around it aside; whether it ran without a failure
(`CommandDispatcher.execute`). With `passOn` the failure itself is passed on. -/
def execute (text : String) (passOn : Bool) : Act σ Bool := do
  let name := trimmed text
  match ofName? name with
  | none => refuse s name
  | some c =>
    if passOn then
      perform s c
      pure true
    else conclude s name (← attempt (perform s c))

end Command

end TreeFeatures
