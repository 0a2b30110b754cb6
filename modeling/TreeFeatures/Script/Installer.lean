import TreeFeatures.Editor.Call

/-!
# An installer that follows a script

`Script.Installer` says how an installer is found and how its calls end, one after the other; the
last outcome repeats. A call that is left open gives a ticket, which is its number, and ends as
`finish` says.
-/

namespace TreeFeatures.Script

/-- A registered installer. -/
structure EntryPoint where
  name : String
  /-- Why it cannot be loaded. -/
  loadFailure : Option String := none
  /-- Why it cannot be made. -/
  makeFailure : Option String := none
  /-- What is made; null if nothing is. -/
  made : Value

/-- How an installer is found when it is looked for in a way of its own. -/
inductive Finder where
  | finds
  | findsNothing
  | fails (message : String)

/-- How the call of an installer ends. -/
inductive Outcome where
  /-- With a value; perhaps the grammars are not registered even so. -/
  | value (v : Value) (register : Bool)
  | failure (message : String)
  /-- It is left open. -/
  | open

/-- An installer that follows a script. -/
structure Installer where
  finder : Finder := .findsNothing
  /-- The registered installers, or why they cannot be listed. -/
  entryPoints : Except String (List EntryPoint) := .ok []
  outcomes : List Outcome := [.value (.bool true) true]
  /-- The languages of the calls so far. -/
  calls : List (List String) := []
  /-- How calls that were left open have ended. -/
  ended : Assoc Nat Outcome := []

namespace Installer

/-- The planned outcome of a call. -/
def planned (i : Installer) (call : Nat) : Outcome :=
  (i.outcomes[call]?).getD (i.outcomes.getLast?.getD (.value (.bool true) true))

/-- End a call that was left open, unless it has ended or was not made yet. -/
def finish (i : Installer) (call : Nat) (o : Outcome) : Installer :=
  if i.calls.length ≤ call || Assoc.has i.ended call then i
  else { i with ended := Assoc.put i.ended call o }

/-- The languages whose grammars a call with this outcome registers. -/
def registered (languages : List String) : Outcome → List String
  | .value (.bool false) _ => []
  | .value _ true => languages
  | _ => []

/-- The languages of a call. -/
def languagesOf (i : Installer) (call : Nat) : List String := (i.calls[call]?).getD []

/-- How an open call has ended. -/
def endOf (i : Installer) (call : Nat) : Outcome :=
  (Assoc.get? i.ended call).getD .open

/-- The registered installer at a position. -/
def entryPoint? (i : Installer) (index : Nat) : Option EntryPoint :=
  match i.entryPoints with
  | .ok es => es[index]?
  | .error _ => none

end Installer

end TreeFeatures.Script
