import TreeFeatures.Fault
import TreeFeatures.Log

/-!
# The shared controller

Model of `get_controller` and `reset_controller`. A process has at most one shared controller. It is
created for the host that first asks, and everybody gets the same one until it is reset.
-/

namespace TreeFeatures

/-- The shared controller of a process: the host that it was created for. -/
structure Shared (η : Type) where
  host : Option η := none
  /-- How many controllers there have been. -/
  created : Nat := 0

namespace Shared

variable {η : Type}

/-- What is logged when the controller is created. -/
def creationNote : LogEntry :=
  ⟨.debug, .controller, "Created singleton LifecycleController instance"⟩

/-- The host of the controller, which is created if there is none; with the log
(`get_controller`). -/
def get (s : Shared η) (host : Option η) : Except Fault (η × Shared η × List LogEntry) :=
  match s.host, host with
  | some h, _ => .ok (h, s, [])
  | none, some h => .ok (h, ⟨some h, s.created + 1⟩, [creationNote])
  | none, none => .error .needsHost

/-- No controller any more (`reset_controller`). -/
def reset (s : Shared η) : Shared η := { s with host := none }

end Shared

end TreeFeatures
