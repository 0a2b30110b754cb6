import TreeFeatures.Features.Override
import TreeFeatures.Install.Loop
import TreeFeatures.Registry
import TreeFeatures.Settings.Basic

/-!
# The state of the program

`State` is all that the program remembers between two operations.
-/

namespace TreeFeatures

/-- A document that waits for an install, and the filetype it was attached with. -/
structure Waiter where
  document : Handle
  filetype : String
  deriving DecidableEq

/-- All that the program remembers: the attributes of `TSEnableContext`, `EnablementEngine`,
`FeatureApplier` and `InstallerGateway`, and the event loop. -/
structure State where
  /-- The settings in force, once they are known. -/
  settings : Option Settings := none
  registry : Registry := []
  /-- The bundled languages. -/
  bundled : List String := []
  /-- Whether registry and bundled languages were set up. -/
  initialized : Bool := false
  /-- Whether filetype events attach documents. -/
  autoAttach : Bool := true
  features : Features := {}
  /-- The documents that wait for the install of a language, first come first. -/
  waiters : Assoc String (List Waiter) := []
  gateway : Gateway := {}
  loop : Loop := {}

namespace State

/-- The documents that wait for the install of a language, with their filetypes (`waiting_documents`
gives them without). -/
def waitersOf (s : State) (language : String) : List Waiter :=
  (Assoc.get? s.waiters language).getD []

/-- Have a document wait for the install of a language, once. -/
def enqueue (s : State) (language : String) (w : Waiter) : State :=
  let known := s.waitersOf language
  { s with waiters := Assoc.put s.waiters language (if w ∈ known then known else known ++ [w]) }

/-- No document waits for the install of a language any more. -/
def dequeue (s : State) (language : String) : State :=
  { s with waiters := Assoc.remove s.waiters language }

end State

end TreeFeatures
