import TreeFeatures.Assoc
import TreeFeatures.Availability
import TreeFeatures.Fault
import TreeFeatures.Log

/-!
# The registry of filetypes

Model of `AvailabilityRegistry`. It holds what is known about each managed filetype, in the order in
which the filetypes came in. A filetype without an entry is not managed.

* `seed` brings in the filetypes of several languages as unknown; a filetype that has an entry
  keeps it. A language whose filetypes cannot be told is passed over with a warning.
* `set` records what has become known.
-/

namespace TreeFeatures

/-- What is known about each managed filetype (`AvailabilityRegistry`). -/
abbrev Registry := Assoc String Availability

namespace Registry

/-- A registry in the course of seeding, and the number of entries that are new in it. -/
structure Seeding where
  registry : Registry
  added : Nat

namespace Seeding

/-- Bring in a filetype, unless it has an entry. -/
def add (s : Seeding) (filetype : String) : Seeding :=
  if Assoc.has s.registry filetype then s
  else ⟨Assoc.put s.registry filetype .unknown, s.added + 1⟩

/-- Bring in several filetypes. -/
def addAll (s : Seeding) (filetypes : List String) : Seeding := filetypes.foldl add s

end Seeding

/-- A language with its filetypes, or with the reason why they cannot be told. -/
abbrev Answer := String × Except Fault (List String)

/-- Bring in the filetypes of one language. -/
def addAnswer (s : Seeding) (a : Answer) : Seeding :=
  match a.2 with
  | .ok filetypes => s.addAll filetypes
  | .error _ => s

/-- Bring in the filetypes of several languages (`AvailabilityRegistry.seed`, with the answers of
`get_filetypes` in place of the function). -/
def seed (r : Registry) (answers : List Answer) : Seeding := answers.foldl addAnswer ⟨r, 0⟩

/-- The warning about a language whose filetypes cannot be told. -/
def answerLog (a : Answer) : List LogEntry :=
  match a.2 with
  | .ok _ => []
  | .error f =>
    [⟨.warning, .registry, "Could not get filetypes for " ++ a.1 ++ ": " ++ f.message⟩]

/-- What `AvailabilityRegistry.seed` logs. -/
def seedLog (r : Registry) (answers : List Answer) : List LogEntry :=
  answers.flatMap answerLog ++
    [⟨.debug, .registry, "Availability registry seeded with " ++ toString (seed r answers).added ++
      " filetypes"⟩]

/-- Record what has become known (`AvailabilityRegistry.set`). -/
def set (r : Registry) (filetype : String) (a : Availability) : Registry := Assoc.put r filetype a

/-- The word for an entry, if there is one. -/
def entryText : Option Availability → String
  | some a => a.text
  | none => "None"

/-- What `AvailabilityRegistry.set` logs: only a change. -/
def setLog (r : Registry) (filetype : String) (a : Availability) : List LogEntry :=
  let old := Assoc.get? r filetype
  if old = some a then []
  else
    [⟨.debug, .registry,
      "Filetype " ++ filetype ++ ": " ++ entryText old ++ " -> " ++ a.text⟩]

/-- The filetypes in a state (`AvailabilityRegistry.filetypes_for`). -/
def filetypesFor (r : Registry) (a : Availability) : List String :=
  (r.filter fun e => decide (e.2 = a)).map Prod.fst

end Registry

end TreeFeatures
